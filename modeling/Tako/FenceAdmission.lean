import Tako.InventoryAuthority
import Tako.ReadWriteLocks
import Tako.WorkerFenceSafety

/-! # Mutations under a fence

`enrolledLifecycleHandler` holds `workerFenceAdmissionMu` for reading from before its checks until
its handler returns; activation, revocation and inventory changes hold it for writing. The inventory
also changes outside the lock. The fence file does not.
-/
namespace FenceAdmission

open GoPrelude NodeIdentity DurablePrograms PlatformMembership MembershipStore WorkerFences
open WorkerFenceSafety
open InventoryAuthority ReadWriteLocks Runs

inductive Method where
  | get
  | head
  | post
  | put
  | delete
  | other (name : String)
  deriving DecidableEq

structure GateRequest where
  method : Method
  (path fenceHeader holderHeader queryProject queryEnvironment : String)
  deriving DecidableEq

section

variable (S : Server) (r : GateRequest) (s : State)

def GateRequest.mutation : MutationRequest :=
  ⟨r.fenceHeader, r.holderHeader, r.queryProject, r.queryEnvironment, r.path,
    decide (r.method = .delete)⟩

def lifecycleSafeMutationPaths : List String :=
  ["/v1/platform/membership/reconcile", "/v1/platform/inventory", "/v1/fence", "/v1/lease",
    "/v1/platform", "/v1/mesh/key", "/v1/mesh/apply"]

def requestRequiresNodeLifecycleExclusion : Bool :=
  decide (r.path = "/v1/platform/inventory") ||
    (decide (r.method = .post) &&
      (decide (r.path = "/v1/platform/membership/reconcile") ||
        decide (r.path = "/v1/platform/allocations/authorize")))

/-- Errors of the lifecycle exclusion, where `leaseActive` is `ErrNodeUpgradeLeaseActive`. -/
inductive ExclusionError where
  | leaseActive (cause : String)
  | failed (cause : String)
  deriving DecidableEq

def ExclusionError.answer : ExclusionError → HTTPError
  | .leaseActive cause => ⟨409, cause⟩
  | .failed cause => ⟨503, cause⟩

inductive DenyLatch where
  | absent
  | present
  | unreadable (cause : String)
  deriving DecidableEq

structure GateEnvironment where
  exclusion : Option ExclusionError
  mutationLock : Option String
  latch : DenyLatch
  deriving DecidableEq

/-- The gate up to `workerFenceAdmissionMu.RLock()`: whether the request goes on to the lock
or straight to its handler. -/
def routeRequest (env : GateEnvironment) (r : GateRequest) : Except HTTPError Bool :=
  match S.installation with
  | none => .ok false
  | some _ =>
    match (if requestRequiresNodeLifecycleExclusion r then env.exclusion else none),
      env.mutationLock with
    | some failure, _ => .error failure.answer
    | none, some cause => .error ⟨503, "platform snapshot authority is unavailable: " ++ cause⟩
    | none, none =>
      if r.method = .get ∨ r.method = .head then .ok false
      else if r.path ∈ lifecycleSafeMutationPaths then .ok false
      else match env.latch with
        | .present => .error ⟨409, "node has a durable lifecycle deployment deny latch"⟩
        | .unreadable cause =>
          .error ⟨503, "cannot verify lifecycle deployment deny latch: " ++ cause⟩
        | .absent => .ok true

/-- What the inventory demands of a mutation. `cleanup` is the exception for a cordoned or
draining node. -/
inductive Demand where
  | nothing
  | cleanup (lifecycle : Lifecycle)
  | fence
  deriving DecidableEq

def lifecycleRefusal (lifecycle : Lifecycle) : HTTPError :=
  ⟨409, "node lifecycle is " ++ lifecycle.text ++ "; workload mutations require schedulable"⟩

def inspectInventory (file : Option ClusterInventory) : Except HTTPError Demand :=
  match readInventory S.oracles file with
  | .error cause => .error ⟨503, "trusted cluster lifecycle is unavailable: " ++ cause⟩
  | .ok inventory =>
    if inventory.controllerNodeID = "" ∨ inventory.generation = 0 then .ok .nothing
    else match S.installation.bind fun installation =>
        if inventory.clusterID = installation.clusterID then inventory.node installation.nodeID
          else none with
      | none => .error ⟨403, "node is absent or revoked in authoritative membership"⟩
      | some node =>
        if node.meshCredentialStatus ≠ .active then
          .error ⟨403, "node is absent or revoked in authoritative membership"⟩
        else if node.lifecycle ≠ .schedulable ∨ node.schedulable = false then
          if (node.lifecycle = .cordoned ∨ node.lifecycle = .draining) ∧
            r.path = "/v1/reconcile-service" then
            .ok (.cleanup node.lifecycle)
          else .error (lifecycleRefusal node.lifecycle)
        else .ok .fence

/-- The stored record a mutation is admitted under, and the fence state it was found in. The
handler keeps the record; the state is kept here to speak about it later. -/
structure Grant where
  fence : OperationFence
  found : WorkerFenceState
  stored : found.active = some fence ∨ found.previous = some fence
  deriving DecidableEq

def grantMutation (fault : Option String) (activeAt previousAt : Time) (r : GateRequest)
    (w : Worker) : Except String Grant :=
  match h : validateMutationFence S fault activeAt previousAt r.mutation w with
  | .error cause => .error cause
  | .ok fence => .ok ⟨fence, w.stored, (validateMutationFence_eq h).2⟩

/-- A mutation between `RLock` and `RUnlock`. The flag of `serving` is
`withPlacementCleanupOnly`. -/
inductive Handler where
  | checking (r : GateRequest)
  | demanding (r : GateRequest) (demand : Demand)
  | unfenced (r : GateRequest)
  | serving (r : GateRequest) (grant : Grant) (cleanupOnly : Bool)
  | refused (answer : HTTPError)
  deriving DecidableEq

def inspected : Except HTTPError Demand → Handler
  | .error answer => .refused answer
  | .ok .nothing => .unfenced r
  | .ok demand => .demanding r demand

def admitted : Demand → Except String Grant → Handler
  | .nothing, _ => .unfenced r
  | .fence, .ok grant => .serving r grant false
  | .fence, .error cause => .refused ⟨409, cause⟩
  | .cleanup lifecycle, .ok grant =>
    if grant.fence.operation = "placement-apply" then .serving r grant true
    else .refused (lifecycleRefusal lifecycle)
  | .cleanup lifecycle, .error _ => .refused (lifecycleRefusal lifecycle)

def Handler.isChecking : Handler → Bool
  | .checking _ => true
  | _ => false

def Handler.isDemanding : Handler → Bool
  | .demanding _ _ => true
  | _ => false

def Handler.found : Handler → Option WorkerFenceState
  | .serving _ grant _ => some grant.found
  | _ => none

inductive Call where
  | activateWorkerFence (fence : OperationFence) (holderToken : String)
  | revokeWorkerFenceWithFence (fence : OperationFence) (holderToken : String)
  | acceptSignedInventory (snapshot : SignedInventorySnapshot)
  | handleMembershipReconcile (post : Bool)
  deriving DecidableEq

inductive Writer where
  | running (call : Call)
  | activated (fence : OperationFence) (result : Except String FenceResponse)
  | revoked (fence : OperationFence) (result : Except String FenceResponse)
  | accepted (result : Except String Unit)
  | reconciled (result : Except HTTPError MembershipReconcileResponse)
  deriving DecidableEq

def Writer.call : Writer → Option Call
  | .running call => some call
  | _ => none

structure State where
  clock : Time
  worker : Worker
  membershipFile : Option MembershipState
  lock : Lock ℕ Handler Writer

def State.files : Files := ⟨s.membershipFile, s.worker.inventoryFile⟩

def State.withFiles (files : Files) : State :=
  { s with membershipFile := files.membership, worker.inventoryFile := files.inventory }

end

/-- Requests are told apart by numbers. `publish` is any change of the two files outside the
lock or by an admitted handler. -/
inductive Event where
  | tick (t : Time)
  | enter (i : ℕ) (env : GateEnvironment) (r : GateRequest)
  | inspect (i : ℕ)
  | grant (i : ℕ) (fault : Option String) (activeAt previousAt : Time)
  | leave (i : ℕ)
  | lock (call : Call)
  | activate (verifyAt now : Time) (faults : FenceFaults)
  | revoke (now : Time) (faults : FenceFaults)
  | accept (now : Time) (faults : StoreFaults) (proxy : ProxyOutcomes)
  | reconcile (first second : StoreFaults) (opened : Option String) (proxy : ProxyOutcomes)
  | unlock
  | publish (files : Files)
  | timer (operationID : String)
  | restart

variable (D : Daemon)

/-- A handler returns in its own time, and a refusal at once. -/
def Enabled (s : State) : Event → Prop
  | .tick t => s.clock ≤ t
  | .enter i env r =>
    s.lock.writer = none ∧ s.lock.reader i = none ∧ routeRequest D.server env r = .ok true
  | .inspect i => (s.lock.reader i).any Handler.isChecking
  | .grant i _ activeAt previousAt =>
    (s.lock.reader i).any Handler.isDemanding ∧ s.clock ≤ activeAt ∧ activeAt ≤ previousAt
  | .leave i => (s.lock.reader i).any (fun h => !h.isChecking && !h.isDemanding)
  | .lock _ => s.lock.isFree
  | .activate verifyAt now _ => s.clock ≤ verifyAt ∧ verifyAt ≤ now
  | .revoke now _ => s.clock ≤ now
  | .accept now _ _ => s.clock ≤ now
  | .unlock => s.lock.writer.any (fun w => w.call.isNone)
  | _ => True

instance (s : State) (e : Event) : Decidable (Enabled D s e) := by
  cases e <;> simp only [Enabled] <;> infer_instance

def next (s : State) : Event → State
  | .tick t => { s with clock := t }
  | .enter i _ r => { s with lock := s.lock.enter i (.checking r) }
  | .inspect i =>
    match s.lock.reader i with
    | some (.checking r) =>
      { s with
        lock := s.lock.enter i (inspected r (inspectInventory D.server r s.worker.inventoryFile)) }
    | _ => s
  | .grant i fault activeAt previousAt =>
    match s.lock.reader i with
    | some (.demanding r demand) =>
      { s with
        clock := previousAt
        lock := s.lock.enter i
          (admitted r demand (grantMutation D.server fault activeAt previousAt r s.worker)) }
    | _ => s
  | .leave i => { s with lock := s.lock.leave i }
  | .lock call => { s with lock := .exclusive (.running call) }
  | .activate verifyAt now faults =>
    match s.lock.writer with
    | some (.running (.activateWorkerFence fence holderToken)) =>
      { s with
        clock := now
        worker := (activateWorkerFence D.server faults verifyAt now fence holderToken s.worker).2
        lock := .exclusive (.activated fence
          (activateWorkerFence D.server faults verifyAt now fence holderToken s.worker).1) }
    | _ => s
  | .revoke now faults =>
    match s.lock.writer with
    | some (.running (.revokeWorkerFenceWithFence fence holderToken)) =>
      { s with
        clock := now
        worker := (revokeWorkerFenceWithFence D.server faults now fence holderToken s.worker).2
        lock := .exclusive (.revoked fence
          (revokeWorkerFenceWithFence D.server faults now fence holderToken s.worker).1) }
    | _ => s
  | .accept now faults proxy =>
    match s.lock.writer with
    | some (.running (.acceptSignedInventory snapshot)) =>
      { s.withFiles ((acceptSignedInventory D faults proxy now snapshot).run s.files).2 with
        clock := now
        lock := .exclusive (.accepted
          ((acceptSignedInventory D faults proxy now snapshot).run s.files).1) }
    | _ => s
  | .reconcile first second opened proxy =>
    match s.lock.writer with
    | some (.running (.handleMembershipReconcile post)) =>
      { s.withFiles (handleMembershipReconcile D post first second opened proxy s.files).2 with
        lock := .exclusive (.reconciled
          (handleMembershipReconcile D post first second opened proxy s.files).1) }
    | _ => s
  | .unlock => { s with lock := .free }
  | .publish files => s.withFiles files
  | .timer operationID => { s with worker := barrierTimer operationID s.clock s.worker }
  | .restart => { s with worker.barrier := none, lock := .free }

def machine : Machine State Event := ⟨Enabled D, next D⟩

instance (s : State) (e : Event) : Decidable ((machine D).Enabled s e) :=
  inferInstanceAs (Decidable (Enabled D s e))

def fences (s : State) : WorkerFenceSafety.State := ⟨s.clock, s.worker⟩

def Initial (s : State) : Prop := WorkerFenceSafety.Initial (fences s) ∧ s.lock = .free

variable {D}

theorem fences_withFiles :
    (WorkerFenceSafety.machine D.server).Execution (fences s) (fences (s.withFiles files)) :=
  .single (e := .inventory files.inventory) ⟨trivial, rfl⟩

theorem tick_execution (h : s.clock ≤ t) :
    (WorkerFenceSafety.machine D.server).Execution s { s with clock := t } :=
  .single (e := .tick t) ⟨h, rfl⟩

theorem step_simulates (s : State) (e : Event) (h : Enabled D s e) :
    (WorkerFenceSafety.machine D.server).Execution (fences s) (fences (next D s e)) := by
  cases e with
  | tick => exact tick_execution h
  | enter | leave | lock | unlock => exact .refl _
  | inspect =>
    simp only [next]
    split <;> exact .refl _
  | grant =>
    simp only [next]
    split
    · exact tick_execution (h.2.1.trans h.2.2)
    · exact .refl _
  | activate verifyAt now faults =>
    simp only [next]
    split
    · rename_i fence holderToken _
      exact .single (e := .activate fence holderToken verifyAt now faults) ⟨h, rfl⟩
    · exact .refl _
  | revoke now faults =>
    simp only [next]
    split
    · rename_i fence holderToken _
      exact .single (e := .revoke fence holderToken now faults) ⟨h, rfl⟩
    · exact .refl _
  | accept =>
    simp only [next]
    split
    · exact fences_withFiles.trans (tick_execution h)
    · exact .refl _
  | reconcile =>
    simp only [next]
    split
    · exact fences_withFiles
    · exact .refl _
  | publish => exact fences_withFiles
  | timer operationID => exact .single (e := .timer operationID) ⟨trivial, rfl⟩
  | restart => exact .single (e := .restart) ⟨trivial, rfl⟩

theorem execution_simulates (h : (machine D).Execution s u) :
    (WorkerFenceSafety.machine D.server).Execution (fences s) (fences u) :=
  h.simulation fences step_simulates

theorem reachable_fences (h : (machine D).Reachable Initial s) :
    WorkerFenceSafety.Invariant (fences s) := by
  obtain ⟨s₀, h₀, hs⟩ := h
  exact WorkerFenceSafety.reachable_invariant ⟨fences s₀, h₀.1, execution_simulates hs⟩

theorem inspected_found : (inspected r demand).found = none := by
  rcases demand with answer | (_ | lifecycle | _) <;> rfl

theorem grantMutation_found (h : grantMutation S fault activeAt previousAt r w = .ok grant) :
    grant.found = w.stored := by
  unfold grantMutation at h
  split at h
  · cases h
  · cases h
    rfl

theorem admitted_found
    (h : (admitted r demand (grantMutation S fault activeAt previousAt r w)).found = some d) :
    d = w.stored := by
  cases hg : grantMutation S fault activeAt previousAt r w with
  | error =>
    rw [hg] at h
    cases demand <;> cases h
  | ok =>
    rw [hg] at h
    have hfound := grantMutation_found hg
    cases demand with
    | nothing => cases h
    | fence =>
      cases h
      exact hfound
    | cleanup =>
      simp only [admitted] at h
      split at h
      · cases h
        exact hfound
      · cases h

/-- The fence state on disk changes only in the hands of the lock's writer. -/
theorem step_written (hchanged : (next D s e).worker.stored ≠ s.worker.stored) :
    s.lock.writer ≠ none := by
  intro hfree
  cases e with
  | timer =>
    refine hchanged ?_
    simp only [next, Worker.stored, barrierTimer_fenceFile]
  | inspect | grant =>
    simp only [next] at hchanged
    split at hchanged <;> exact hchanged rfl
  | activate verifyAt now faults | revoke now faults | accept now faults proxy
  | reconcile =>
    simp only [next, hfree] at hchanged
    exact hchanged rfl
  | _ => exact hchanged rfl

theorem step_remembered (hreader : (next D s e).lock.reader i = some h)
    (hfound : h.found = some d) :
    d = (next D s e).worker.stored ∨ ∃ p, s.lock.reader i = some p ∧ p.found = some d := by
  have hold : s.lock.reader i = some h → ∃ p, s.lock.reader i = some p ∧ p.found = some d :=
    fun hp => ⟨h, hp, hfound⟩
  cases e with
  | enter =>
    rcases Lock.reader_enter hreader with ⟨_, rfl⟩ | hp
    · cases hfound
    · exact .inr (hold hp)
  | inspect =>
    simp only [next] at hreader ⊢
    split at hreader
    · rcases Lock.reader_enter hreader with ⟨_, rfl⟩ | hp
      · rw [inspected_found] at hfound
        cases hfound
      · exact .inr (hold hp)
    · exact .inr (hold hreader)
  | grant =>
    simp only [next] at hreader ⊢
    split at hreader
    · rcases Lock.reader_enter hreader with ⟨_, rfl⟩ | hp
      · left
        rw [admitted_found hfound]
      · exact .inr (hold hp)
    · exact .inr (hold hreader)
  | leave => exact .inr (hold (Lock.reader_leave hreader))
  | lock | unlock | restart => cases hreader
  | activate verifyAt now faults | revoke now faults | accept now faults proxy
  | reconcile =>
    simp only [next] at hreader
    split at hreader
    · cases hreader
    · exact .inr (hold hreader)
  | tick | publish | timer => exact .inr (hold hreader)

theorem guarded : Guarded (machine D) State.lock (fun s => s.worker.stored) Handler.found where
  written _ _ _ hchanged := step_written hchanged
  remembered _ _ _ _ _ _ hreader hfound := step_remembered hreader hfound

def Reports (s : State) : Writer → Prop
  | .activated fence (.ok _) => WorkerFenceSafety.active (fences s) = some fence
  | .revoked _ (.ok _) => WorkerFenceSafety.active (fences s) = none
  | _ => True

theorem reports_kept {w : Writer} (hstored : u.worker.stored = s.worker.stored) (h : Reports s w) :
    Reports u w := by
  unfold Reports at *
  simpa only [active, fences, hstored] using h

theorem step_reports (hs : WorkerFenceSafety.Invariant (fences s))
    (hreports : ∀ w, s.lock.writer = some w → Reports s w) :
    ∀ w, (next D s e).lock.writer = some w → Reports (next D s e) w := by
  intro w hw
  cases e with
  | activate verifyAt now faults =>
    simp only [next] at hw ⊢
    split at hw
    · rename_i fence holderToken _
      cases hw
      cases hr : (activateWorkerFence D.server faults verifyAt now fence holderToken
          s.worker).1 with
      | error => trivial
      | ok => exact WorkerFenceSafety.activated_active (s := fences s) hr
    · exact hreports w hw
  | revoke now faults =>
    simp only [next] at hw ⊢
    split at hw
    · rename_i fence holderToken _
      cases hw
      cases hr : (revokeWorkerFenceWithFence D.server faults now fence holderToken s.worker).1 with
      | error => trivial
      | ok => exact revoked_inactive hs hr
    · exact hreports w hw
  | accept | reconcile =>
    simp only [next] at hw ⊢
    split at hw
    · cases hw
      trivial
    · exact hreports w hw
  | lock =>
    cases hw
    trivial
  | unlock | restart => cases hw
  | enter =>
    simp only [next, Lock.writer_enter] at hw
    exact reports_kept rfl (hreports w hw)
  | inspect | grant =>
    simp only [next] at hw ⊢
    split at hw
    · rw [Lock.writer_enter] at hw
      exact reports_kept rfl (hreports w hw)
    · exact hreports w hw
  | leave =>
    simp only [next, Lock.writer_leave] at hw
    exact reports_kept rfl (hreports w hw)
  | tick | publish => exact reports_kept rfl (hreports w hw)
  | timer =>
    refine reports_kept ?_ (hreports w hw)
    simp only [next, Worker.stored, barrierTimer_fenceFile]

theorem reachable_reports (h : (machine D).Reachable Initial s) :
    ∀ w, s.lock.writer = some w → Reports s w := by
  have hboth : WorkerFenceSafety.Invariant (fences s) ∧ ∀ w, s.lock.writer = some w →
      Reports s w := by
    refine h.invariant (I := fun s => WorkerFenceSafety.Invariant (fences s) ∧
      ∀ w, s.lock.writer = some w → Reports s w) ?_ ?_
    · intro s₀ h₀
      refine ⟨WorkerFenceSafety.initial_invariant h₀.1, ?_⟩
      rw [h₀.2]
      intro w hw
      cases hw
    · rintro u e ⟨hu, hreports⟩ he
      refine ⟨?_, step_reports hu hreports⟩
      exact (step_simulates u e he).invariant
        (fun _ f hv _ => WorkerFenceSafety.step_preserves_invariant hv f) hu
  exact hboth.2

open WorkerFenceSafety (Stored)

def Serving (s : State) (i : ℕ) (grant : Grant) : Prop :=
  ∃ r cleanupOnly, s.lock.reader i = some (.serving r grant cleanupOnly)

/-- A revocation of `fence` or the activation of a later grant is about to return with success,
or else the fence file holds `fence` no more. -/
def Ended (s : State) (fence : OperationFence) : Prop :=
  (∃ response, s.lock.writer = some (.revoked fence (.ok response))) ∨
  (∃ later response, fence.token < later.token ∧
    s.lock.writer = some (.activated later (.ok response))) ∨
  ¬ Stored (fences s) fence

section

variable (h : (machine D).Reachable Initial s)

include h

theorem serving_current (hserving : Serving s i grant) : s.worker.stored = grant.found := by
  obtain ⟨r, cleanupOnly, hreader⟩ := hserving
  have hstart : ∀ s₀, Initial s₀ → ∀ j, s₀.lock.reader j = none := by
    intro s₀ h₀ j
    rw [h₀.2, Lock.reader_free]
  exact guarded.reachable_current hstart h i _ _ hreader rfl

theorem serving_stored (hserving : Serving s i grant) : Stored (fences s) grant.fence := by
  have hcur := serving_current h hserving
  unfold Stored WorkerFenceSafety.active WorkerFenceSafety.previous
  rw [show (fences s).worker.stored = grant.found from hcur]
  exact grant.stored

theorem Ended.not_stored (hended : Ended s fence) : ¬ Stored (fences s) fence := by
  have hinv := reachable_fences h
  rcases hended with ⟨response, hw⟩ | ⟨later, response, hlt, hw⟩ | hgone
  · exact WorkerFenceSafety.not_stored_of_inactive hinv (reachable_reports h _ hw) fence
  · intro hstored
    have hfence := hstored.token hinv
    have hlater := hinv.active_token later (reachable_reports h _ hw)
    omega
  · exact hgone

end

def demoDaemon : Daemon := ⟨demoServer, "/var/lib/tako/membership.json", fun _ => 0⟩

def demoGrantFence : OperationFence := demoFence "op-1" 1 2

def demoRequest : GateRequest := ⟨.post, "/v1/reconcile-service", "fence", "holder", "", ""⟩

def freshNode : State := ⟨1, ⟨none, some demoInventory, none⟩, none, .free⟩

def deployment : List Event :=
  [.lock (.activateWorkerFence demoGrantFence "holder"),
    .activate 2 2 noFenceFaults, .unlock,
    .enter 7 ⟨none, none, .absent⟩ demoRequest, .inspect 7, .grant 7 none 3 3]

def revocation : List Event :=
  [.leave 7, .lock (.revokeWorkerFenceWithFence demoGrantFence "holder"), .revoke 4 noFenceFaults]

def deployingNode : State := (machine demoDaemon).runTrace freshNode deployment

def revokedNode : State := (machine demoDaemon).runTrace deployingNode revocation

def demoGrant : Grant := ⟨demoGrantFence, ⟨1, 1, some demoGrantFence, none, 2⟩, .inl rfl⟩

def earlyRevocation : List Event :=
  [.lock (.revokeWorkerFenceWithFence demoGrantFence "holder"), .revoke 1 noFenceFaults]

def earlyRevokedNode : State := (machine demoDaemon).runTrace freshNode earlyRevocation

/-- The revocation has to wait for the handler. -/
example : ¬ (machine demoDaemon).Enabled deployingNode
    (.lock (.revokeWorkerFenceWithFence demoGrantFence "holder")) := by decide +kernel

end FenceAdmission
