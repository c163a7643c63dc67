import Tako.DurablePrograms
import Tako.OperationLeases
import Tako.WorkerFences

/-! # Controller operations

The journal of cluster-global operations, the request bindings beside it and the backing lease of
the active operation. Every call runs under `operationFenceMu`. The inventory file is read anew by
each check, so a call is given the contents it reads.
-/
namespace ControllerOperations

open GoPrelude NodeIdentity OperationLeases WorkerFences DurablePrograms

def maxControlHistory : ℕ := 256

structure ControlOperationRecord where
  (requestID requestFingerprint holderToken : String)
  fence : OperationFence
  previousFence : Option OperationFence
  phase : String
  (updatedAt completedAt : Time)
  deriving DecidableEq

structure ControlOperationState where
  schemaVersion : ℤ
  nextToken : ℕ
  active : Option ControlOperationRecord
  history : List ControlOperationRecord
  updatedAt : Time
  deriving DecidableEq

structure ControlRequestBinding where
  schemaVersion : ℤ
  (requestID fingerprint : String)
  createdAt : Time
  deriving DecidableEq

/-- The files of the controller. Bindings are found under the digest of their request ID. -/
structure Disk where
  journal : Option ControlOperationState
  bindings : String → Option ControlRequestBinding
  leases : LeaseDir

/-- `controller` is the installation of a daemon that supports the membership controller;
on every other daemon the calls are plain lease calls. `encodedLen` and `bindingLen` are the
lengths of the encoded files. -/
structure ControlServer where
  oracles : Oracles
  controller : Option Installation
  dataDir : String
  encodedLen : ControlOperationState → ℕ
  bindingLen : ControlRequestBinding → ℕ

structure CallFaults where
  (journalRead journalWrite bindingRead bindingReadAgain bindingWrite : Option String)
  (lease release : LeaseFaults)
  deriving DecidableEq

def emptyControlOperationState : ControlOperationState := ⟨1, 0, none, [], 0⟩

def readControlOperationState (S : ControlServer) (fault : Option String)
    (journal : Option ControlOperationState) : Except String ControlOperationState :=
  match fault, journal with
  | some cause, _ => .error cause
  | none, none => .ok emptyControlOperationState
  | none, some state => do
    require (S.encodedLen state + 1 ≤ maxFenceStateBytes) "state file exceeds size limit"
    require (state.schemaVersion = 1) "unsupported controller operation state schema"
    .ok state

/-- The loop of `writeControlOperationState` over the history that remains. -/
def pruneHistory (S : ControlServer) (state : ControlOperationState) :
    List ControlOperationRecord → Except String ControlOperationState
  | [] =>
    if S.encodedLen { state with history := [] } + 1 ≤ maxFenceStateBytes then
      .ok { state with history := [] }
    else .error "active controller operation state exceeds size limit"
  | record :: rest =>
    if S.encodedLen { state with history := record :: rest } + 1 ≤ maxFenceStateBytes then
      .ok { state with history := record :: rest }
    else pruneHistory S state rest

section

variable (S : ControlServer)

def writeControlOperationState (fault : Option String)
    (state : ControlOperationState) : Durable Disk Unit := do
  let pruned ← .check fun _ => pruneHistory S state state.history
  .write fault fun d => { d with journal := some pruned }

def retireControlOperation (state : ControlOperationState) (phase : String) (now : Time) :
    ControlOperationState :=
  match state.active with
  | none => state
  | some active =>
    let record := { active with
      holderToken := "", previousFence := none, phase := phase, updatedAt := now,
      completedAt := now }
    let history := state.history ++ [record]
    { state with
      history := history.drop (history.length - maxControlHistory)
      active := none
      updatedAt := now }

def retireExpired (state : ControlOperationState) (now : Time) : ControlOperationState :=
  if state.active.any (fun active => decide (active.fence.expiresAt ≤ now)) then
    retireControlOperation state "expired-reconciled" now
  else state

def controllerRequestBindingPath (requestID : String) : String := S.oracles.sha256Hex requestID

def Disk.setBinding (path : String) (binding : ControlRequestBinding) (d : Disk) : Disk :=
  { d with bindings := Function.update d.bindings path (some binding) }

/-- The empty text is the answer for a request ID without a binding. -/
def readControllerRequestBinding (fault : Option String) (requestID : String)
    (d : Disk) : Except String String :=
  match fault, d.bindings (controllerRequestBindingPath S requestID) with
  | some cause, _ => .error ("read controller request binding: " ++ cause)
  | none, none => .ok ""
  | none, some binding => do
    require (S.bindingLen binding ≤ maxFenceStateBytes)
      "read controller request binding: state file exceeds size limit"
    require (binding.schemaVersion = 1 ∧ binding.requestID = requestID ∧
      binding.fingerprint ≠ "" ∧ binding.createdAt ≠ 0) "controller request binding is invalid"
    .ok binding.fingerprint

def boundElsewhere : String :=
  "controller operation request ID is durably bound to different immutable scope"

def bindControllerRequest (faults : CallFaults) (requestID fingerprint : String)
    (now : Time) : Durable Disk Unit := do
  let existing ← .check (readControllerRequestBinding S faults.bindingReadAgain requestID)
  if existing ≠ "" then
    .check fun _ => require (existing = fingerprint) boundElsewhere
  else
    .write (faults.bindingWrite.map ("persist controller request binding: " ++ ·))
      (Disk.setBinding (controllerRequestBindingPath S requestID) ⟨1, requestID, fingerprint, now⟩)

def controllerOperationRequestFingerprint (req : LeaseRequest)
    (targets : List String) : String :=
  S.oracles.requestDigest (trimSpace req.project) (trimSpace req.environment)
    (trimSpace req.operation) (trimSpace req.who) req.pid targets

end

def lifecycleAllowed (operation : String) (lifecycle : Lifecycle) : Bool :=
  decide (lifecycle = .schedulable) ||
    (decide (operation = "placement-apply") &&
      (decide (lifecycle = .cordoned) || decide (lifecycle = .draining)))

def collectTargets (i : ClusterInventory) (operation : String) :
    List String → List String → Except String (List String)
  | out, [] => .ok out
  | out, target :: rest => do
    let nodeID := toLower (trimSpace target)
    if nodeID ∈ out then collectTargets i operation out rest
    else
      require ((i.node nodeID).any (fun node => decide (node.meshCredentialStatus = .active) &&
        lifecycleAllowed operation node.lifecycle))
        s!"operation target {nodeID} is not an active schedulable member"
      collectTargets i operation (out ++ [nodeID]) rest

def validateFenceTargets (i : ClusterInventory) (targets : List String) (operation : String) :
    Except String (List String) := do
  require (i.controllerNodeID ≠ "" ∧ i.generation ≠ 0)
    "authoritative controller inventory is required"
  let out ← collectTargets i operation [] targets
  require (out ≠ []) "controller operation requires at least one target node"
  .ok (sortStrings out)

def leaseCall (scope : Scope) (run : LeaseFile → Except String LeaseResponse × LeaseFile) :
    Durable Disk LeaseResponse :=
  .call fun d =>
    ((run (d.leases scope)).1,
      { d with leases := Function.update d.leases scope (run (d.leases scope)).2 })

def scopeRequest (project env : String) : LeaseRequest :=
  ⟨project, env, "", "", "", 0, 0, false, "", "", [], none⟩

def withFence (response : LeaseResponse) (fence : OperationFence) (holderToken : String) :
    LeaseResponse :=
  { response with
    lease := response.lease.map fun lease => { lease with fence := some fence }
    holderToken := holderToken }

section

variable (S : ControlServer) (faults : CallFaults)

def retryActive (req : LeaseRequest) (fingerprint : String)
    (active : ControlOperationRecord) (readAt : Time) : Durable Disk LeaseResponse := do
  .check fun _ => require (active.requestFingerprint ≠ "" ∧ active.requestFingerprint = fingerprint)
    "controller operation request ID is already bound to different immutable scope"
  .check fun _ => require (active.holderToken ≠ "")
    "controller operation holder credential is unavailable"
  let existing ← leaseCall req.scope
    (readLease S.dataDir faults.lease (scopeRequest req.project req.environment) readAt)
  .check fun _ =>
    require (existing.lease.any (fun lease => decide (lease.id = active.fence.operationID)))
    "controller operation authority lease is inconsistent with its active fence"
  pure (withFence { existing with acquired := true } active.fence active.holderToken)

def reportActive (active : ControlOperationRecord) (readAt : Time) :
    Durable Disk LeaseResponse := do
  let fence := active.fence
  let blocking ← leaseCall (fence.project, fence.environment)
    (readLease S.dataDir faults.lease (scopeRequest fence.project fence.environment) readAt)
  let lease := blocking.lease.getD
    ⟨fence.operationID, fence.project, fence.environment, fence.operation, "", 0, fence.issuedAt,
      fence.expiresAt, none⟩
  pure { blocking with
    acquired := false
    found := true
    lease := some lease
    message := "another cluster-global controller operation is active" }

end

structure Draw where
  (operationID holderToken : Except String String)

def newFence (inventory : ClusterInventory) (req : LeaseRequest) (operationID : String) (token : ℕ)
    (holderTokenHash : String) (targets : List String) (now expiresAt : Time) : OperationFence where
  kind := operationFenceKind
  clusterID := inventory.clusterID
  controllerNodeID := inventory.controllerNodeID
  membershipGeneration := inventory.generation
  project := req.project
  environment := req.environment
  operationID := operationID
  operation := req.operation
  token := token
  holderTokenHash := holderTokenHash
  targetNodeIDs := targets
  issuedAt := now
  expiresAt := expiresAt
  signature := ""

/-- From the drawn operation ID to the persisted grant. A failure after the lease was
acquired gives the lease back, except for an exhausted token. -/
def grantOperation (S : ControlServer) (installation : Installation) (faults : CallFaults)
    (draw : Draw) (inventory : ClusterInventory) (req : LeaseRequest) (targets : List String)
    (fingerprint : String) (state : ControlOperationState) (now leaseAt : Time) :
    Durable Disk LeaseResponse := do
  let operationID ← .check fun _ => draw.operationID
  let req := { req with id := operationID }
  let response ← leaseCall req.scope (acquireLease S.dataDir faults.lease req leaseAt)
  match response.acquired, response.lease with
  | true, some lease =>
    let token := uint64Succ state.nextToken
    .check fun _ => require (token ≠ 0) "controller fencing token exhausted"
    let release := leaseCall req.scope (releaseLease S.dataDir faults.release req)
    Durable.onError (do
      let holderToken ← .check fun _ => draw.holderToken
      let holderTokenHash ← .check fun _ => operationHolderTokenHash S.oracles holderToken
      let fence ← .check fun _ => signOperationFence S.oracles
        (newFence inventory req operationID token holderTokenHash targets now lease.expiresAt)
          installation
      bindControllerRequest S faults req.requestID fingerprint now
      let record := ⟨req.requestID, fingerprint, holderToken, fence, none, "authority-acquired",
        now, 0⟩
      writeControlOperationState S (faults.journalWrite.map
        ("persist controller operation authority: " ++ ·))
        { state with
          schemaVersion := 1, nextToken := token, active := some record, updatedAt := now }
      pure (withFence response fence holderToken)) release
  | _, _ => pure response

def checkRequestID (requestID : String) : Except String Unit :=
  require (trimSpace requestID ≠ "" ∧ requestID.utf8ByteSize ≤ 256 ∧
    hasControlChars requestID = false) "controller operation request ID is required"

/-- `now` is read under the mutex, `leaseAt` by the lease call that follows. -/
def acquireOperation (S : ControlServer) (installation : Installation) (faults : CallFaults)
    (draw : Draw) (inventory : ClusterInventory) (req : LeaseRequest) (now leaseAt : Time) :
    Durable Disk LeaseResponse := do
  .check fun _ => checkRequestID req.requestID
  let targets ← .check fun _ => validateFenceTargets inventory req.targetNodeIDs req.operation
  .check fun _ => require (S.dataDir ≠ "") "data directory is required"
  let stored ← .check fun d => readControlOperationState S faults.journalRead d.journal
  let state := retireExpired stored now
  let fingerprint := controllerOperationRequestFingerprint S req targets
  .check fun _ => require (∀ completed ∈ state.history, completed.requestID = req.requestID →
    completed.requestFingerprint ≠ "" ∧ completed.requestFingerprint = fingerprint) boundElsewhere
  let bound ← .check (readControllerRequestBinding S faults.bindingRead req.requestID)
  .check fun _ => require (bound ≠ "" → bound = fingerprint) boundElsewhere
  match state.active with
  | some active =>
    if active.requestID = req.requestID then retryActive S faults req fingerprint active leaseAt
    else reportActive S faults active leaseAt
  | none =>
    grantOperation S installation faults draw inventory req targets fingerprint state now leaseAt

/-- A renewal with the predecessor of the committed fence repairs the backing lease. -/
def reconcileRenewal (S : ControlServer) (faults : CallFaults)
    (inventoryFile : Option ClusterInventory) (req : LeaseRequest) (presented : OperationFence)
    (active : ControlOperationRecord) : Durable Disk LeaseResponse := do
  .check fun _ => require (active.previousFence.isSome)
    "controller operation fence is not the exact active grant"
  let _ ← .check fun _ => verifyExactActiveFence S.oracles inventoryFile presented
    active.previousFence 0
  let response ← leaseCall req.scope
    (renewLeaseTo S.dataDir faults.lease req active.fence.expiresAt)
  .check fun _ => require (response.acquired ∧ response.lease.isSome)
    "controller backing lease could not be reconciled to the committed renewal"
  pure (withFence response active.fence active.holderToken)

def renewActive (S : ControlServer) (installation : Installation) (faults : CallFaults)
    (inventory : ClusterInventory) (inventoryFile : Option ClusterInventory) (req : LeaseRequest)
    (presented : OperationFence) (state : ControlOperationState) (active : ControlOperationRecord)
    (verifyAt now : Time) : Durable Disk LeaseResponse := do
  let _ ← .check fun _ => verifyExactActiveFence S.oracles inventoryFile presented
    (some active.fence) verifyAt
  .check fun _ => require (inventory.generation = active.fence.membershipGeneration)
    "membership changed during active cluster-global operation"
  .check fun _ => validateLeaseRequest req true
  let candidateExpiry := now + req.ttl
  .check fun _ => require (active.fence.expiresAt < candidateExpiry)
    "controller operation renewal must extend the active fence"
  let fence ← .check fun _ => signOperationFence S.oracles
    { active.fence with issuedAt := now, expiresAt := candidateExpiry } installation
  let record := { active with previousFence := some active.fence, fence := fence, updatedAt := now }
  writeControlOperationState S faults.journalWrite { state with
    active := some record, updatedAt := now }
  let response ← leaseCall req.scope (renewLeaseTo S.dataDir faults.lease req candidateExpiry)
  .check fun _ => require (response.acquired ∧ response.lease.isSome)
    "controller backing lease was lost after durable fence renewal"
  pure (withFence response fence active.holderToken)

def checkHolder (req : LeaseRequest) (active : ControlOperationRecord) : Except String Unit := do
  require (req.project = active.fence.project ∧ req.environment = active.fence.environment)
    "controller operation request scope does not match the active fence"
  require (holderTokensEqual req.holderToken active.holderToken)
    "controller operation holder credential is invalid"

section

variable (S : ControlServer)

def renewControllerOperationLease (installation : Installation) (faults : CallFaults)
    (inventory : ClusterInventory) (inventoryFile : Option ClusterInventory) (req : LeaseRequest)
    (verifyAt now : Time) : Durable Disk LeaseResponse := do
  .check fun _ => require (S.dataDir ≠ "") "data directory is required"
  let state ← .check fun d => readControlOperationState S faults.journalRead d.journal
  match state.active with
  | none => pure (refused false none "controller operation authority is not active")
  | some active =>
    if active.fence.operationID ≠ req.id then
      pure (refused true none "controller operation authority is not active")
    else do
      .check fun _ => checkHolder req active
      match req.fence with
      | none => .fail "signed controller operation fence is required for renewal"
      | some presented =>
        if presented ≠ active.fence then
          reconcileRenewal S faults inventoryFile req presented active
        else
          renewActive S installation faults inventory inventoryFile req presented state active
            verifyAt now

section

variable (faults : CallFaults) (inventoryFile : Option ClusterInventory) (req : LeaseRequest)

/-- `inventoryFile` is what the call reads before the mutex, `checkedFile` what its fence
checks read later. -/
def acquireControllerOperationLease (draw : Draw)
    (inventoryFile checkedFile : Option ClusterInventory) (req : LeaseRequest)
    (now leaseAt : Time) : Durable Disk LeaseResponse :=
  match S.controller with
  | none => leaseCall req.scope (acquireLease S.dataDir faults.lease req leaseAt)
  | some installation => do
    let inventory ← .check fun _ =>
      wrap (fun cause => "read controller inventory for operation authority: " ++ cause)
        (readInventory S.oracles inventoryFile)
    if req.renew then
      renewControllerOperationLease S installation faults inventory checkedFile req now leaseAt
    else acquireOperation S installation faults draw inventory req now leaseAt

/-- The active fence, or else its predecessor; the error of the first check is kept. -/
def verifyReleased
    (presented : OperationFence) (active : ControlOperationRecord) : Except String OperationFence :=
  match verifyExactActiveFence S.oracles inventoryFile presented (some active.fence) 0 with
  | .ok fence => .ok fence
  | .error cause =>
    wrap (fun _ => cause) (verifyExactActiveFence S.oracles inventoryFile presented
      active.previousFence 0)

def releaseControllerOperationLease (now : Time) : Durable Disk LeaseResponse :=
  match S.controller with
  | none => leaseCall req.scope (releaseLease S.dataDir faults.lease req)
  | some _ => do
    .check fun _ => require (S.dataDir ≠ "") "data directory is required"
    let state ← .check fun d => readControlOperationState S faults.journalRead d.journal
    match state.active, req.fence with
    | some active, some presented => do
      .check fun _ => require (active.fence.operationID = req.id)
        "signed active controller operation fence is required for release"
      .check fun _ => checkHolder req active
      let _ ← .check fun _ => verifyReleased S inventoryFile presented active
      let response ← leaseCall req.scope (releaseLease S.dataDir faults.lease req)
      .check fun _ => require (response.lease.any (fun lease => decide (lease.id = req.id)))
        "controller operation lease was not removed; global authority remains active"
      writeControlOperationState S faults.journalWrite
        (retireControlOperation state "completed" now)
      pure response
    | _, _ => .fail "signed active controller operation fence is required for release"

/-- What `handleFenceStatus` does before it reports. -/
def reconcileExpired (checkedAt retiredAt : Time) : Durable Disk Unit := do
  .check fun _ => require (S.controller.isSome)
    "operation status is available only from the controller"
  .check fun _ => require (S.dataDir ≠ "") "data directory is required"
  let state ← .check fun d => readControlOperationState S faults.journalRead d.journal
  if state.active.any (fun active => decide (active.fence.expiresAt ≤ checkedAt)) then
    writeControlOperationState S faults.journalWrite
      (retireControlOperation state "expired-reconciled" retiredAt)
  else pure ()

def updateControllerFencePhase (fence : OperationFence) (holderToken phase : String)
    (verifyAt now : Time) : Durable Disk FenceResponse :=
  match S.controller with
  | none => .fail "operation phases may be updated only on the controller"
  | some _ => do
    .check fun _ => require (phase = "targets-fenced" ∨ phase = "mutating")
      "unsupported controller operation phase"
    .check fun _ => require (S.dataDir ≠ "") "data directory is required"
    let state ← .check fun d => readControlOperationState S faults.journalRead d.journal
    match state.active with
    | none => .fail "controller operation is not active"
    | some active => do
      .check fun _ => require (holderTokensEqual holderToken active.holderToken)
        "controller operation holder credential is invalid"
      let _ ← .check fun _ => verifyExactActiveFence S.oracles inventoryFile fence
        (some active.fence) verifyAt
      writeControlOperationState S faults.journalWrite { state with
        active := some { active with phase := phase, updatedAt := now }
        updatedAt := now }
      pure ⟨true, active.fence.token, some active.fence, phase⟩

end

end

def Disk.stored (d : Disk) : ControlOperationState := d.journal.getD emptyControlOperationState

variable {Q : Unit → Disk → Prop}

theorem readControlOperationState_stored {d : Disk}
    (h : readControlOperationState S fault d.journal = .ok state) : state = d.stored := by
  unfold readControlOperationState at h
  unfold Disk.stored
  split at h
  · cases h
  · rename_i hj
    simp only [Except.ok.injEq] at h
    rw [hj, Option.getD_none, h]
  · rename_i hj
    simp only [bind_eq_ok, Except.ok.injEq] at h
    obtain ⟨_, _, _, _, rfl⟩ := h
    rw [hj, Option.getD_some]

theorem holds_readState {α : Type} {I : Disk → Prop} {Q : α → Disk → Prop}
    {f : ControlOperationState → Durable Disk α} (h : Holds (f d.stored) d I Q) :
    Holds (.check (fun d => readControlOperationState S fault d.journal) >>= f) d I Q := by
  refine holds_guard ?_
  intro state hread
  rw [readControlOperationState_stored hread]
  exact h

theorem pruneHistory_eq (h : pruneHistory S state history = .ok pruned) :
    ∃ kept, pruned = { state with history := kept } := by
  induction history with
  | nil =>
    unfold pruneHistory at h
    split_ifs at h
    cases h
    exact ⟨[], rfl⟩
  | cons record rest ih =>
    unfold pruneHistory at h
    split_ifs at h
    · cases h
      exact ⟨record :: rest, rfl⟩
    · exact ih h

variable {I : Disk → Prop}

theorem holds_writeControlOperationState
    (hI : ∀ kept, I { d with journal := some { state with history := kept } })
    (hQ : ∀ kept, Q () { d with journal := some { state with history := kept } }) :
    Holds (writeControlOperationState S fault state) d I Q := by
  refine holds_guard ?_
  intro pruned hpruned
  obtain ⟨kept, rfl⟩ := pruneHistory_eq hpruned
  exact holds_write (hI kept) (hQ kept)

def Bound (S : ControlServer) (bindings : String → Option ControlRequestBinding)
    (requestID fingerprint : String) : Prop :=
  ∃ binding, bindings (controllerRequestBindingPath S requestID) = some binding ∧
    binding.requestID = requestID ∧ binding.fingerprint = fingerprint

theorem readControllerRequestBinding_bound
    (h : readControllerRequestBinding S fault requestID d = .ok fingerprint)
    (hne : fingerprint ≠ "") : Bound S d.bindings requestID fingerprint := by
  unfold readControllerRequestBinding at h
  split at h
  · cases h
  · cases h
    exact absurd rfl hne
  · rename_i binding hb
    simp only [bind_eq_ok, require_eq_ok, Except.ok.injEq] at h
    obtain ⟨_, _, _, ⟨_, hid, _, _⟩, rfl⟩ := h
    exact ⟨binding, hb, hid, rfl⟩

theorem readControllerRequestBinding_absent
    (h : readControllerRequestBinding S fault requestID d = .ok "") :
    d.bindings (controllerRequestBindingPath S requestID) = none := by
  unfold readControllerRequestBinding at h
  split at h
  · cases h
  · rename_i hb
    exact hb
  · simp only [bind_eq_ok, require_eq_ok, Except.ok.injEq] at h
    obtain ⟨_, _, _, ⟨_, _, hne, _⟩, he⟩ := h
    exact absurd he hne

theorem holds_bindControllerRequest
    (hI : ∀ path binding, d.bindings path = none → I (d.setBinding path binding))
    (hQ : ∀ d', Bound S d'.bindings requestID fingerprint →
      (d' = d ∨ ∃ path binding, d.bindings path = none ∧ d' = d.setBinding path binding) →
        Q () d') :
    Holds (bindControllerRequest S faults requestID fingerprint now) d I Q := by
  refine holds_guard ?_
  intro existing hold
  split_ifs with hne
  · refine holds_check ?_
    intro _ heq
    rw [require_eq_ok] at heq
    subst heq
    exact hQ d (readControllerRequestBinding_bound hold hne) (.inl rfl)
  · rw [not_not] at hne
    subst hne
    have habsent := readControllerRequestBinding_absent hold
    refine holds_write (hI _ _ habsent) (hQ _ ?_ (.inr ⟨_, _, habsent, rfl⟩))
    exact ⟨_, Function.update_self .., rfl, rfl⟩

end ControllerOperations
