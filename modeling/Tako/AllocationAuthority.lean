import Tako.MembershipStore

/-! # Allocation authorization by proposal

The phases by which the controller publishes a new set of allocations. Each phase holds
`proxyAuthorityMu`. The store's own lock is released between the sections of a phase: on the
default layout the node-upgrade guard keeps other operations out, on any other layout nothing does.
-/
namespace AllocationAuthority

open GoPrelude NodeIdentity DurablePrograms PlatformMembership MembershipStore

structure AllocationAuthorizationRequest where
  (project environment : String)
  allocations : List ActiveAllocation
  (phase proposalID targetNodeID : String)
  deriving DecidableEq

/-- No snapshot stands for the zero snapshot of an empty response. -/
structure AllocationAuthorizationResponse where
  proposalID : String
  snapshot : Option SignedInventorySnapshot
  recoveryTargetNodeIDs : List String
  recovered : Bool
  deriving DecidableEq

structure PendingAllocationAuthorization where
  (proposalID requestFingerprint : String)
  (baseGeneration baseAllocationGeneration : ℕ)
  request : AllocationAuthorizationRequest
  candidate : MembershipState
  snapshot : SignedInventorySnapshot
  createdAt : Time
  operationID : String
  fenceToken : ℕ
  (publicationTargetNodeIDs acknowledgedNodeIDs : List String)
  recoverySnapshot : Option SignedInventorySnapshot
  recoveryAcknowledgedNodeIDs : List String
  deriving DecidableEq

structure Disk where
  files : Files
  pending : Option PendingAllocationAuthorization
  deriving DecidableEq

/-- `requestDigest` is the hash of an encoded request, `snapshotDigest` the first half of the
hash of an encoded snapshot. -/
structure Controller where
  store : Store
  installation : Installation
  requestDigest : AllocationAuthorizationRequest → String
  snapshotDigest : SignedInventorySnapshot → String

/-- Failing system calls of one section. `stopProxy` and `reconcileProxy` are the errors of
the proxy. -/
structure SectionFaults where
  store : StoreFaults
  (pendingRead pendingWrite pendingRemove stopProxy reconcileProxy : Option String)
  deriving DecidableEq

def noSectionFaults : SectionFaults := ⟨noStoreFaults, none, none, none, none, none⟩

structure SectionClock where
  (preparedAt checkedAt issuedAt createdAt : Time)
  deriving DecidableEq

inductive Frame where
  | prepareRead (request : AllocationAuthorizationRequest) (fence : OperationFence)
      (current : MembershipState)
  | previewed (request : AllocationAuthorizationRequest) (fence : OperationFence)
      (current candidate : MembershipState)
  | committing (pending : PendingAllocationAuthorization)
  | committed (pending : PendingAllocationAuthorization) (state : MembershipState)
  | recovering (pending : PendingAllocationAuthorization) (current : MembershipState)
  | recovered (pending : PendingAllocationAuthorization) (candidate : MembershipState)
  deriving DecidableEq

inductive Progress where
  | done (response : AllocationAuthorizationResponse)
  | paused (frame : Frame)
  deriving DecidableEq

variable (C : Controller)

def onStore {α : Type} (p : Durable Files α) : Durable Disk α :=
  p.zoom (·.files) fun files d => { d with files := files }

section

variable (fault : Option String)

def readPendingAllocationAuthorization (file : Option PendingAllocationAuthorization) :
    Except String (Option PendingAllocationAuthorization) :=
  match fault with
  | some cause => .error cause
  | none => .ok file

def writePending (pending : PendingAllocationAuthorization) : Durable Disk Unit :=
  .write fault fun d => { d with pending := some pending }

def removePending : Durable Disk Unit := .write fault fun d => { d with pending := none }

end

def allocationAuthorizationFingerprint (request : AllocationAuthorizationRequest) : String :=
  C.requestDigest { request with phase := "", proposalID := "" }

def containsNodeID (values : List String) (wanted : String) : Bool :=
  values.any fun value => equalFold (trimSpace value) wanted

/-- Compares position by position. -/
def sameNodeIDSet (left right : List String) : Bool :=
  decide (left.length = right.length) &&
    (left.zip right).all fun (l, r) => equalFold (trimSpace l) (trimSpace r)

def signed (inventory : ClusterInventory) (issuedAt : Time) :
    Except String SignedInventorySnapshot :=
  signInventorySnapshot C.store.oracles ⟨signedInventoryKind, inventory, issuedAt, ""⟩
    C.installation

section

variable (pending : PendingAllocationAuthorization) (snapshot : SignedInventorySnapshot)

def answer : AllocationAuthorizationResponse := ⟨pending.proposalID, some snapshot, [], false⟩

def answerRecovered (targets : List String) : AllocationAuthorizationResponse :=
  ⟨pending.proposalID, some snapshot, targets, true⟩

end

def emptyResponse : AllocationAuthorizationResponse := ⟨"", none, [], false⟩

section

variable (faults : SectionFaults) (clock : SectionClock) (request : AllocationAuthorizationRequest)
  (fence : OperationFence)

/-- The first section of `prepareAllocationAuthorization`: the read of the base and the
answer to a proposal that is already pending. -/
def prepareBegin : Durable Disk Progress := do
  let current ← onStore (read C.store faults.store)
  .check fun _ => require (uint64Succ current.allocationGeneration ≠ 0)
    "allocation authority generation exhausted"
  let pending ← .check fun d => readPendingAllocationAuthorization faults.pendingRead d.pending
  match pending with
  | none => pure (.paused (.prepareRead request fence current))
  | some pending =>
    if pending.baseGeneration = current.generation ∧
        pending.baseAllocationGeneration = current.allocationGeneration ∧
        pending.requestFingerprint = allocationAuthorizationFingerprint C request ∧
        pending.operationID = fence.operationID ∧ pending.fenceToken = fence.token then
      pure (.done (answer pending pending.snapshot))
    else .fail "pending allocation publication must be recovered before preparing another proposal"

def preparePreview (current : MembershipState) : Durable Disk Progress := do
  let candidate ← onStore (previewAllocations C.store faults.store request.project
    request.environment request.allocations clock.preparedAt)
  pure (.paused (.previewed request fence current candidate))

section

variable (current candidate : MembershipState)

def raiseCandidate (now : Time) : MembershipState :=
  if candidate.allocationGeneration < uint64Succ current.allocationGeneration then
    { candidate with
      allocationGeneration := uint64Succ current.allocationGeneration
      updatedAt := now }
  else candidate

def newPending (snapshot : SignedInventorySnapshot) (createdAt : Time) :
    PendingAllocationAuthorization where
  proposalID := "allocation-" ++ C.snapshotDigest snapshot
  requestFingerprint := allocationAuthorizationFingerprint C request
  baseGeneration := current.generation
  baseAllocationGeneration := current.allocationGeneration
  request := { request with phase := "", proposalID := "" }
  candidate := candidate
  snapshot := snapshot
  createdAt := createdAt
  operationID := fence.operationID
  fenceToken := fence.token
  publicationTargetNodeIDs := []
  acknowledgedNodeIDs := []
  recoverySnapshot := none
  recoveryAcknowledgedNodeIDs := []

def prepareStore : Durable Disk Progress :=
  if candidate.allocationGeneration = current.allocationGeneration then do
    let snapshot ← .check fun _ => signed C current.inventory clock.issuedAt
    pure (.done ⟨"", some snapshot, [], false⟩)
  else do
    let candidate := raiseCandidate current candidate clock.preparedAt
    let snapshot ← .check fun _ => signed C candidate.inventory clock.issuedAt
    let pending := newPending C request fence current candidate snapshot clock.createdAt
    writePending faults.pendingWrite pending
    pure (.done (answer pending snapshot))

end

def pendingAllocationForActiveOperation (fault : Option String) (fence : Option OperationFence)
    (request : AllocationAuthorizationRequest) (file : Option PendingAllocationAuthorization) :
    Except String (PendingAllocationAuthorization × OperationFence) := do
  let pending ← readPendingAllocationAuthorization fault file
  match pending, fence with
  | some pending, some fence => do
    require (request.proposalID ≠ "" ∧ pending.proposalID = request.proposalID ∧
      pending.operationID = fence.operationID ∧ pending.fenceToken = fence.token)
      "allocation proposal is not bound to the active operation"
    .ok (pending, fence)
  | _, _ => .error "allocation proposal is not bound to the active operation"

def AllocationAuthorizationRequest.target : String := toLower (trimSpace request.targetNodeID)

end

section

variable (faults : SectionFaults) (fence : Option OperationFence)
  (request : AllocationAuthorizationRequest)

def trackAllocationPublicationTarget : Durable Disk Progress := do
  let (pending, fence) ← .check fun d =>
    pendingAllocationForActiveOperation faults.pendingRead fence request d.pending
  .check fun _ => require (request.target ≠ "" ∧ containsNodeID fence.targetNodeIDs request.target)
    "allocation publication target is outside the active operation"
  if containsNodeID pending.publicationTargetNodeIDs request.target then
    pure (.done (answer pending pending.snapshot))
  else do
    writePending faults.pendingWrite { pending with
      publicationTargetNodeIDs :=
        sortStrings (pending.publicationTargetNodeIDs ++ [request.target]) }
    pure (.done (answer pending pending.snapshot))

def acknowledgeAllocationAuthorization : Durable Disk Progress := do
  let (pending, _) ← .check fun d =>
    pendingAllocationForActiveOperation faults.pendingRead fence request d.pending
  .check fun _ => require (request.target ≠ "" ∧
    containsNodeID pending.publicationTargetNodeIDs request.target)
    "allocation acknowledgement has no durable publication intent"
  if containsNodeID pending.acknowledgedNodeIDs request.target then
    pure (.done (answer pending pending.snapshot))
  else do
    writePending faults.pendingWrite { pending with
      acknowledgedNodeIDs := sortStrings (pending.acknowledgedNodeIDs ++ [request.target]) }
    pure (.done (answer pending pending.snapshot))

end

def checkCommit (fence : Option OperationFence) (request : AllocationAuthorizationRequest)
    (file : Option PendingAllocationAuthorization) : Except String PendingAllocationAuthorization :=
  match file with
  | none => .error "allocation proposal is missing or does not match"
  | some pending => do
    require (request.proposalID ≠ "" ∧ pending.proposalID = request.proposalID)
      "allocation proposal is missing or does not match"
    require (fence.any (fun f => decide (pending.operationID = f.operationID ∧
      pending.fenceToken = f.token)))
      "allocation proposal is bound to a different controller operation"
    .ok pending

section

variable (faults : SectionFaults)

def commitBegin (fence : Option OperationFence)
    (request : AllocationAuthorizationRequest) : Durable Disk Progress := do
  let file ← .check fun d => readPendingAllocationAuthorization faults.pendingRead d.pending
  let pending ← .check fun _ => checkCommit fence request file
  let current ← onStore (read C.store faults.store)
  .check fun _ => require (current.generation = pending.baseGeneration ∧
    current.allocationGeneration = pending.baseAllocationGeneration)
    "allocation proposal base generation changed before commit"
  .check fun _ => require
    (sameNodeIDSet pending.publicationTargetNodeIDs pending.acknowledgedNodeIDs)
    "allocation proposal has unacknowledged publication targets"
  .check fun _ =>
    succeeds (faults.stopProxy.map ("stop controller proxy before allocation transition: " ++ ·))
  pure (.paused (.committing pending))

def commitStore (clock : SectionClock) (pending : PendingAllocationAuthorization) :
    Durable Disk Progress := do
  let state ← onStore (commitPreparedAllocations C.store faults.store pending.candidate
    pending.baseGeneration pending.baseAllocationGeneration clock.checkedAt)
  pure (.paused (.committed pending state))

/-- The inventories are compared by their encoded texts in the source. -/
def commitFinish (pending : PendingAllocationAuthorization)
    (state : MembershipState) : Durable Disk Progress := do
  .check fun _ => require (pending.snapshot.inventory = state.inventory)
    "committed allocation state differs from edge-acknowledged proposal"
  .check fun _ => succeeds (faults.reconcileProxy.map
    ("allocation committed fail-closed but controller route reconciliation failed: " ++ ·))
  removePending (faults.pendingRemove.map ("remove committed allocation proposal: " ++ ·))
  pure (.done (answer pending pending.snapshot))

def recoverBegin (fence : Option OperationFence) : Durable Disk Progress := do
  let file ← .check fun d => readPendingAllocationAuthorization faults.pendingRead d.pending
  match file, fence with
  | none, _ => pure (.done emptyResponse)
  | some _, none => .fail "allocation recovery requires active controller operation context"
  | some pending, some fence => do
    .check fun _ => require (pending.operationID ≠ fence.operationID)
      "active operation must commit its own allocation proposal"
    match pending.recoverySnapshot with
    | some snapshot =>
      pure (.done (answerRecovered pending snapshot pending.publicationTargetNodeIDs))
    | none => do
      let current ← onStore (read C.store faults.store)
      pure (.paused (.recovering pending current))

end

section

variable (pending : PendingAllocationAuthorization) (current : MembershipState)

def recoveryGeneration : ℕ :=
  let next := uint64Succ pending.candidate.allocationGeneration
  if next ≤ current.allocationGeneration ∨ next = 0 then uint64Succ current.allocationGeneration
    else next

def recoveryCandidate (now : Time) : MembershipState :=
  { current with allocationGeneration := recoveryGeneration pending current, updatedAt := now }

end

section

variable (faults : SectionFaults) (clock : SectionClock) (pending : PendingAllocationAuthorization)

def recoverStore (current : MembershipState) : Durable Disk Progress := do
  .check fun _ => require (recoveryGeneration pending current ≠ 0)
    "allocation authority generation exhausted"
  let state ← onStore (commitPreparedAllocations C.store faults.store
    (recoveryCandidate pending current clock.preparedAt) current.generation
    current.allocationGeneration clock.checkedAt)
  pure (.paused (.recovered pending state))

def recoverFinish (candidate : MembershipState) : Durable Disk Progress := do
  let snapshot ← .check fun _ => signed C candidate.inventory clock.issuedAt
  writePending (faults.pendingWrite.map ("persist committed allocation recovery: " ++ ·))
    { pending with recoverySnapshot := some snapshot }
  pure (.done (answerRecovered pending snapshot pending.publicationTargetNodeIDs))

end

section

variable (faults : SectionFaults) (fence : Option OperationFence)
  (request : AllocationAuthorizationRequest)

def checkRecoveryAcknowledgement (file : Option PendingAllocationAuthorization) :
    Except String (PendingAllocationAuthorization × SignedInventorySnapshot) :=
  match fence, file with
  | some _, some pending =>
    match pending.recoverySnapshot with
    | some snapshot => do
      require (request.proposalID = pending.proposalID)
        "allocation recovery acknowledgement is not bound to active recovery"
      .ok (pending, snapshot)
    | none => .error "allocation recovery acknowledgement is not bound to active recovery"
  | _, _ => .error "allocation recovery acknowledgement is not bound to active recovery"

def acknowledgeAllocationRecovery : Durable Disk Progress := do
  let file ← .check fun d => readPendingAllocationAuthorization faults.pendingRead d.pending
  let (pending, snapshot) ← .check fun _ => checkRecoveryAcknowledgement fence request file
  .check fun _ => require (containsNodeID pending.publicationTargetNodeIDs request.target)
    "allocation recovery acknowledgement target was not part of abandoned publication"
  if containsNodeID pending.recoveryAcknowledgedNodeIDs request.target then
    pure (.done (answerRecovered pending snapshot []))
  else do
    writePending faults.pendingWrite { pending with
      recoveryAcknowledgedNodeIDs :=
        sortStrings (pending.recoveryAcknowledgedNodeIDs ++ [request.target]) }
    pure (.done (answerRecovered pending snapshot []))

def checkFinalize (pending : PendingAllocationAuthorization) :
    Except String SignedInventorySnapshot :=
  match fence, pending.recoverySnapshot with
  | some _, some snapshot => do
    require (request.proposalID = pending.proposalID) "allocation recovery is not ready to finalize"
    require (sameNodeIDSet pending.publicationTargetNodeIDs pending.recoveryAcknowledgedNodeIDs)
      "allocation recovery has unacknowledged convergence targets"
    .ok snapshot
  | _, _ => .error "allocation recovery is not ready to finalize"

def finalizeAllocationRecovery : Durable Disk Progress := do
  let file ← .check fun d => readPendingAllocationAuthorization faults.pendingRead d.pending
  match file with
  | none => pure (.done emptyResponse)
  | some pending => do
    let snapshot ← .check fun _ => checkFinalize fence request pending
    removePending faults.pendingRemove
    pure (.done (answerRecovered pending snapshot []))

def supportsMembershipController (inventoryFile : Option ClusterInventory) : Bool :=
  match readInventory C.store.oracles inventoryFile with
  | .error _ => false
  | .ok inventory =>
    decide (inventory.clusterID = C.installation.clusterID) &&
      decide (inventory.controllerNodeID = C.installation.nodeID) &&
      decide (inventory.generation ≠ 0) &&
      (inventory.node C.installation.nodeID).any fun node =>
        decide (roleControlPlane ∈ node.roles ∧ node.meshCredentialStatus = .active)

/-- The proofs of a `prepare` must be bound to the operation. A phase with surrounding blanks
is dispatched like the trimmed one but skips this check, as in the source. -/
def checkProofs : Except String Unit :=
  whenever (trimSpace request.phase = "" ∨ request.phase = "prepare")
    (match fence with
    | none => .error "allocation authorization requires active controller operation context"
    | some fence => require
        (∀ a ∈ request.allocations, a.operationID = fence.operationID ∧ a.fenceToken = fence.token)
        "worker allocation proof is not bound to this controller operation")

def zeroFence : OperationFence := ⟨"", "", "", 0, "", "", "", "", 0, "", [], 0, 0, ""⟩

/-- `handleAllocationAuthorization`, up to the first release of the store's lock. -/
def beginPhase : Durable Disk Progress := do
  .check fun d => require (supportsMembershipController C d.files.inventory)
    "allocation authorization requires the membership controller"
  .check fun _ => checkProofs fence request
  let phase := trimSpace request.phase
  if phase = "" ∨ phase = "prepare" then prepareBegin C faults request (fence.getD zeroFence)
  else if phase = "track" then trackAllocationPublicationTarget faults fence request
  else if phase = "ack" then acknowledgeAllocationAuthorization faults fence request
  else if phase = "commit" then commitBegin C faults fence request
  else if phase = "recover" then recoverBegin C faults fence
  else if phase = "recovery-ack" then acknowledgeAllocationRecovery faults fence request
  else if phase = "finalize-recovery" then finalizeAllocationRecovery faults fence request
  else .fail "unsupported allocation authorization phase"

def continuePhase (clock : SectionClock) : Frame → Durable Disk Progress
  | .prepareRead request fence current => preparePreview C faults clock request fence current
  | .previewed request fence current candidate =>
    prepareStore C faults clock request fence current candidate
  | .committing pending => commitStore C faults clock pending
  | .committed pending state => commitFinish faults pending state
  | .recovering pending current => recoverStore C faults clock pending current
  | .recovered pending candidate => recoverFinish C faults clock pending candidate

/-- The GET of `handleInventoryAuthority`. -/
def serveInventory (issuedAt : Time) : Durable Disk SignedInventorySnapshot := do
  .check fun d => require (supportsMembershipController C d.files.inventory)
    "signed inventory is available only from the controller"
  let state ← onStore (read C.store faults.store)
  .check fun _ => signed C state.inventory issuedAt

end

variable {C}

def Repaired (S : Store) (d w : Files) : Prop :=
  w = d ∨ ∃ m, d.membership = some m ∧ Reconciled S m d w

theorem Repaired.membership_eq (h : Repaired S d w) : w.membership = d.membership := by
  rcases h with rfl | ⟨m, _, hw⟩
  · rfl
  · exact hw.membership_eq

structure Proposed (C : Controller) (request : AllocationAuthorizationRequest)
    (fence : OperationFence) (current candidate : MembershipState) (clock : SectionClock)
    (pending : PendingAllocationAuthorization) : Prop where
  advanced : candidate.allocationGeneration ≠ current.allocationGeneration
  signed : ∃ snapshot,
    signed C (raiseCandidate current candidate clock.preparedAt).inventory clock.issuedAt =
      .ok snapshot ∧
    pending = newPending C request fence current (raiseCandidate current candidate clock.preparedAt)
      snapshot clock.createdAt

/-- The disks a section can leave, wherever it stops, when the phase stands at `frame`. No
frame is a phase that begins. -/
inductive SectionEffect (C : Controller) (d : Disk) : Option Frame → Disk → Prop where
  | repaired : Repaired C.store d.files files → SectionEffect C d frame { d with files := files }
  | tracked {request : AllocationAuthorizationRequest} : d.pending = some pending →
      containsNodeID pending.publicationTargetNodeIDs request.target = false →
      SectionEffect C d none { d with pending := some { pending with
        publicationTargetNodeIDs :=
          sortStrings (pending.publicationTargetNodeIDs ++ [request.target]) } }
  | acknowledged {request : AllocationAuthorizationRequest} : d.pending = some pending →
      containsNodeID pending.publicationTargetNodeIDs request.target →
      SectionEffect C d none { d with pending := some { pending with
        acknowledgedNodeIDs := sortStrings (pending.acknowledgedNodeIDs ++ [request.target]) } }
  | recoveryAcknowledged {request : AllocationAuthorizationRequest} :
      d.pending = some pending → pending.recoverySnapshot ≠ none →
      containsNodeID pending.publicationTargetNodeIDs request.target →
      SectionEffect C d none { d with pending := some { pending with
        recoveryAcknowledgedNodeIDs :=
          sortStrings (pending.recoveryAcknowledgedNodeIDs ++ [request.target]) } }
  | finalized : d.pending = some pending → pending.recoverySnapshot ≠ none →
      SectionEffect C d none { d with pending := none }
  | proposed :
      Proposed C request fence current candidate clock pending →
      SectionEffect C d (some (.previewed request fence current candidate)) { d with
        pending := some pending }
  | committed :
      Commits C.store pending.candidate pending.baseGeneration pending.baseAllocationGeneration now
        d.files.membership current →
      Committed C.store pending.candidate d.files files →
      SectionEffect C d (some (.committing pending)) { d with files := files }
  | finished : pending.snapshot.inventory = state.inventory →
      SectionEffect C d (some (.committed pending state)) { d with pending := none }
  | recoveryCommitted :
      recoveryGeneration pending current ≠ 0 →
      Commits C.store (recoveryCandidate pending current now) current.generation
        current.allocationGeneration checkedAt d.files.membership stored →
      Committed C.store (recoveryCandidate pending current now) d.files files →
      SectionEffect C d (some (.recovering pending current)) { d with files := files }
  | recovered :
      AllocationAuthority.signed C candidate.inventory issuedAt = .ok snapshot →
      SectionEffect C d (some (.recovered pending candidate))
        { d with pending := some { pending with recoverySnapshot := some snapshot } }

inductive SectionPause (C : Controller) (d w : Disk) : Option Frame → Frame → Prop where
  | read : d.files.membership = some current → d.pending = none →
      uint64Succ current.allocationGeneration ≠ 0 →
      SectionPause C d w none (.prepareRead request fence current)
  | previewed : d.files.membership = some m →
      checkScope request.project request.environment = .ok () →
      previewOf C.store request.project request.environment request.allocations m now =
        .ok candidate →
      SectionPause C d w (some (.prepareRead request fence current))
        (.previewed request fence current candidate)
  | committing : d.pending = some pending → d.files.membership = some current →
      current.generation = pending.baseGeneration →
      current.allocationGeneration = pending.baseAllocationGeneration →
      sameNodeIDSet pending.publicationTargetNodeIDs pending.acknowledgedNodeIDs →
      SectionPause C d w none (.committing pending)
  | committed :
      Commits C.store pending.candidate pending.baseGeneration pending.baseAllocationGeneration now
        d.files.membership current →
      w.files.membership = some (sorted pending.candidate) →
      SectionPause C d w (some (.committing pending))
        (.committed pending (sorted pending.candidate))
  | recovering : d.pending = some pending → pending.recoverySnapshot = none →
      d.files.membership = some current → SectionPause C d w none (.recovering pending current)
  | recovered :
      recoveryGeneration pending current ≠ 0 →
      Commits C.store (recoveryCandidate pending current now) current.generation
        current.allocationGeneration checkedAt d.files.membership stored →
      w.files.membership = some (sorted (recoveryCandidate pending current now)) →
      SectionPause C d w (some (.recovering pending current))
        (.recovered pending (sorted (recoveryCandidate pending current now)))

/-- The snapshot of a response: of the pending proposal, of a recovery, or of a base that the
request does not change. -/
inductive SectionSnapshot (C : Controller) (d w : Disk) :
    Option Frame → SignedInventorySnapshot → Prop where
  | pending : d.pending = some pending → SectionSnapshot C d w frame pending.snapshot
  | recovery : d.pending = some pending →
      pending.recoverySnapshot = some snapshot → SectionSnapshot C d w frame snapshot
  | stored {frame pending} : w.pending = some pending → SectionSnapshot C d w frame pending.snapshot
  | storedRecovery : w.pending = some pending →
      pending.recoverySnapshot = some snapshot → SectionSnapshot C d w frame snapshot
  | base :
      AllocationAuthority.signed C current.inventory issuedAt = .ok snapshot →
      SectionSnapshot C d w (some (.previewed request fence current candidate)) snapshot
  | committed : SectionSnapshot C d w (some (.committed pending state)) pending.snapshot

section

variable (C : Controller) (d : Disk) (frame : Option Frame)

def SectionResult (progress : Progress) (w : Disk) : Prop :=
  SectionEffect C d frame w ∧
    match progress with
    | .paused next => SectionPause C d w frame next ∧ w.pending = d.pending
    | .done response =>
      ∀ snapshot, response.snapshot = some snapshot → SectionSnapshot C d w frame snapshot

abbrev SectionHolds (p : Durable Disk Progress) : Prop :=
  Holds p d (SectionEffect C d frame) (SectionResult C d frame)

end

variable {α : Type} {I : Disk → Prop} {Q : α → Disk → Prop}

theorem holds_onStore
    (h : Holds p d.files (fun w => I { d with files := w }) fun a w => Q a { d with files := w }) :
    Holds (onStore p) d I Q := holds_zoom rfl h

theorem SectionEffect.refl : SectionEffect C d frame d := .repaired (.inl rfl)

theorem readPending_ok (h : readPendingAllocationAuthorization fault file = .ok found) :
    found = file := by
  cases fault with
  | some => cases h
  | none => cases h; rfl

theorem holds_pendingRead (h : ∀ found, d.pending = found → Holds (f found) d I Q) :
    Holds (.check (fun d => readPendingAllocationAuthorization fault d.pending) >>= f) d I Q :=
  holds_guard fun found hread => h found (readPending_ok hread).symm

theorem holds_storeRead {faults : StoreFaults}
    (h : ∀ m files, d.files.membership = some m → Repaired C.store d.files files →
      Holds (f m) { d with files := files } (SectionEffect C d frame) Q) :
    Holds (onStore (read C.store faults) >>= f) d (SectionEffect C d frame) Q := by
  refine holds_bind (holds_onStore (read_holds.weaken ?_ ?_))
  · rintro w ⟨m, hm, hw⟩
    exact .repaired (.inr ⟨m, hm, hw⟩)
  · rintro m w ⟨hm, hw⟩
    exact h m w hm (.inr ⟨m, hm, hw⟩)

section Answers

theorem holds_done (he : SectionEffect C d frame w) (hresp : response.snapshot = some snapshot)
    (hs : SectionSnapshot C d w frame snapshot) :
    Holds (pure (Progress.done response)) w (SectionEffect C d frame)
      (SectionResult C d frame) := by
  refine holds_ok ⟨he, ?_⟩
  intro found hfound
  cases hresp.symm.trans hfound
  exact hs

theorem holds_written (he : SectionEffect C d frame (update d))
    (hresp : response.snapshot = some snapshot)
    (hs : SectionSnapshot C d (update d) frame snapshot) :
    SectionHolds C d frame (.write fault update >>= fun _ => pure (.done response)) :=
  holds_bind (holds_write he (holds_done he hresp hs))

theorem holds_emptyResponse : SectionHolds C d frame (pure (.done emptyResponse)) :=
  holds_ok ⟨.refl, fun _ hs => by cases hs⟩

end Answers

theorem holds_paused (he : SectionEffect C d frame w) (hp : SectionPause C d w frame next)
    (hsame : w.pending = d.pending) :
    Holds (pure (Progress.paused next)) w (SectionEffect C d frame) (SectionResult C d frame) :=
  holds_ok ⟨he, hp, hsame⟩

theorem prepareBegin_holds : SectionHolds C d none (prepareBegin C faults request active) := by
  refine holds_storeRead ?_
  intro current files hcur hfiles
  refine holds_require fun hnext => holds_pendingRead ?_
  intro found hpend
  cases found with
  | none => exact holds_paused (.repaired hfiles) (.read hcur hpend hnext) rfl
  | some pending =>
    dsimp only
    split_ifs with hsame
    · exact holds_done (.repaired hfiles) rfl (.pending hpend)
    · exact holds_fail

theorem pendingAllocationForActiveOperation_ok
    (h : pendingAllocationForActiveOperation fault fence request file = .ok found) :
    file = some found.1 ∧ fence = some found.2 := by
  simp only [pendingAllocationForActiveOperation, bind_eq_ok] at h
  obtain ⟨pending, hread, h⟩ := h
  have hfile := readPending_ok hread
  subst hfile
  cases pending with
  | none => cases h
  | some =>
    cases fence with
    | none => cases h
    | some =>
      simp only [bind_eq_ok, Except.ok.injEq] at h
      obtain ⟨_, _, rfl⟩ := h
      exact ⟨rfl, rfl⟩

theorem track_holds : SectionHolds C d none
    (trackAllocationPublicationTarget faults fence request) := by
  refine holds_guard ?_
  rintro ⟨pending, active⟩ hfound
  have hpend := (pendingAllocationForActiveOperation_ok hfound).1
  refine holds_require fun _ => ?_
  split_ifs with hknown
  · exact holds_done .refl rfl (.pending hpend)
  · exact holds_written (.tracked hpend (Bool.eq_false_iff.mpr hknown)) rfl (.pending hpend)

theorem acknowledge_holds :
    SectionHolds C d none (acknowledgeAllocationAuthorization faults fence request) := by
  refine holds_guard ?_
  rintro ⟨pending, active⟩ hfound
  have hpend := (pendingAllocationForActiveOperation_ok hfound).1
  refine holds_require fun htracked => ?_
  split_ifs with hknown
  · exact holds_done .refl rfl (.pending hpend)
  · exact holds_written (.acknowledged hpend htracked.2) rfl (.pending hpend)

theorem checkCommit_ok (h : checkCommit fence request file = .ok pending) :
    file = some pending := by
  cases file with
  | none => cases h
  | some =>
    simp only [checkCommit, bind_eq_ok, Except.ok.injEq] at h
    obtain ⟨_, _, _, _, rfl⟩ := h
    rfl

theorem commitBegin_holds : SectionHolds C d none (commitBegin C faults fence request) := by
  refine holds_pendingRead ?_
  rintro _ rfl
  refine holds_guard ?_
  intro pending hcheck
  refine holds_storeRead ?_
  intro current files hcur hfiles
  refine holds_require fun hbase => holds_require fun hacknowledged => holds_guard fun _ _ => ?_
  exact holds_paused (.repaired hfiles)
    (.committing (checkCommit_ok hcheck) hcur hbase.1 hbase.2 hacknowledged) rfl

theorem recoverBegin_holds : SectionHolds C d none (recoverBegin C faults fence) := by
  refine holds_pendingRead ?_
  intro found hpend
  cases found with
  | none => exact holds_emptyResponse
  | some pending =>
    cases fence with
    | none => exact holds_fail
    | some =>
      refine holds_require fun _ => ?_
      cases hrec : pending.recoverySnapshot with
      | some => exact holds_done .refl rfl (.recovery hpend hrec)
      | none =>
        refine holds_storeRead ?_
        intro current files hcur hfiles
        exact holds_paused (.repaired hfiles) (.recovering hpend hrec hcur) rfl

theorem checkRecoveryAcknowledgement_ok
    (h : checkRecoveryAcknowledgement fence request file = .ok found) :
    file = some found.1 ∧ found.1.recoverySnapshot = some found.2 := by
  cases fence with
  | none => cases h
  | some =>
    cases file with
    | none => cases h
    | some pending =>
      cases hrec : pending.recoverySnapshot with
      | none => simp [checkRecoveryAcknowledgement, hrec] at h
      | some =>
        simp only [checkRecoveryAcknowledgement, hrec, bind_eq_ok, Except.ok.injEq] at h
        obtain ⟨_, _, rfl⟩ := h
        exact ⟨rfl, hrec⟩

theorem recoveryAcknowledge_holds :
    SectionHolds C d none (acknowledgeAllocationRecovery faults fence request) := by
  refine holds_pendingRead ?_
  rintro _ rfl
  refine holds_guard ?_
  rintro ⟨pending, stored⟩ hcheck
  obtain ⟨hpend, hrec⟩ := checkRecoveryAcknowledgement_ok hcheck
  refine holds_require fun htracked => ?_
  split_ifs with hknown
  · exact holds_done .refl rfl (.recovery hpend hrec)
  · exact holds_written (.recoveryAcknowledged hpend (Option.ne_none_iff_exists'.mpr ⟨_, hrec⟩)
      htracked) rfl (.recovery hpend hrec)

theorem checkFinalize_ok (h : checkFinalize fence request pending = .ok snapshot) :
    pending.recoverySnapshot = some snapshot := by
  cases fence with
  | none => cases h
  | some =>
    cases hrec : pending.recoverySnapshot with
    | none => simp [checkFinalize, hrec] at h
    | some =>
      simp only [checkFinalize, hrec, bind_eq_ok, Except.ok.injEq] at h
      obtain ⟨_, _, _, _, rfl⟩ := h
      rfl

theorem finalize_holds : SectionHolds C d none
    (finalizeAllocationRecovery faults fence request) := by
  refine holds_pendingRead ?_
  intro found hpend
  cases found with
  | none => exact holds_emptyResponse
  | some =>
    refine holds_guard ?_
    intro stored hcheck
    have hrec := checkFinalize_ok hcheck
    exact holds_written (.finalized hpend (Option.ne_none_iff_exists'.mpr ⟨_, hrec⟩)) rfl
      (.recovery hpend hrec)

theorem beginPhase_holds : SectionHolds C d none (beginPhase C faults fence request) := by
  refine holds_require fun _ => holds_guard fun _ _ => ?_
  dsimp only
  split_ifs
  · exact prepareBegin_holds
  · exact track_holds
  · exact acknowledge_holds
  · exact commitBegin_holds
  · exact recoverBegin_holds
  · exact recoveryAcknowledge_holds
  · exact finalize_holds
  · exact holds_fail

theorem preparePreview_holds : SectionHolds C d (some (.prepareRead request active current))
    (preparePreview C faults clock request active current) := by
  refine holds_bind (holds_onStore (previewAllocations_holds.weaken ?_ ?_))
  · rintro w ⟨m, hm, hw⟩
    exact .repaired (.inr ⟨m, hm, hw⟩)
  · rintro candidate w ⟨m, hm, hw, hscope, hcand⟩
    exact holds_paused (.repaired (.inr ⟨m, hm, hw⟩)) (.previewed hm hscope hcand) rfl

theorem prepareStore_holds : SectionHolds C d (some (.previewed request active current candidate))
    (prepareStore C faults clock request active current candidate) := by
  unfold prepareStore
  split_ifs with hsame
  · refine holds_guard ?_
    intro snapshot hsigned
    exact holds_done .refl rfl (.base hsigned)
  · refine holds_guard ?_
    intro snapshot hsigned
    exact holds_written (.proposed ⟨hsame, snapshot, hsigned, rfl⟩) rfl
      (@SectionSnapshot.stored C d _ _
        (newPending C request active current _ snapshot clock.createdAt) rfl)

theorem commitStore_holds :
    SectionHolds C d (some (.committing pending)) (commitStore C faults clock pending) := by
  refine holds_bind (holds_onStore (commitPreparedAllocations_holds.weaken ?_ ?_))
  · rintro w ⟨⟨current, hcommits⟩, hw⟩
    exact .committed hcommits hw
  · rintro state w ⟨rfl, ⟨current, hcommits⟩, hw⟩
    exact holds_paused
      (.committed hcommits (.published hw)) (.committed hcommits hw.membership_eq) rfl

theorem commitFinish_holds :
    SectionHolds C d (some (.committed pending candidate))
      (commitFinish faults pending candidate) :=
  holds_require fun hsame => holds_guard fun _ _ => holds_written (.finished hsame) rfl .committed

theorem recoverStore_holds :
    SectionHolds C d (some (.recovering pending current))
      (recoverStore C faults clock pending current) := by
  refine holds_require fun hnext => ?_
  refine holds_bind (holds_onStore (commitPreparedAllocations_holds.weaken ?_ ?_))
  · rintro w ⟨⟨stored, hcommits⟩, hw⟩
    exact .recoveryCommitted hnext hcommits hw
  · rintro state w ⟨rfl, ⟨stored, hcommits⟩, hw⟩
    exact holds_paused (.recoveryCommitted hnext hcommits (.published hw))
      (.recovered hnext hcommits hw.membership_eq) rfl

theorem recoverFinish_holds :
    SectionHolds C d (some (.recovered pending candidate))
      (recoverFinish C faults clock pending candidate) := by
  refine holds_guard ?_
  intro snapshot hsigned
  exact holds_written (.recovered hsigned) rfl (.storedRecovery rfl rfl)

theorem continuePhase_holds {frame : Frame} :
    SectionHolds C d (some frame) (continuePhase C faults clock frame) := by
  cases frame with
  | prepareRead => exact preparePreview_holds
  | previewed => exact prepareStore_holds
  | committing => exact commitStore_holds
  | committed => exact commitFinish_holds
  | recovering => exact recoverStore_holds
  | recovered => exact recoverFinish_holds

theorem serveInventory_holds : Holds (serveInventory C faults issuedAt) d
      (fun w => ∃ files, Repaired C.store d.files files ∧ w = { d with files := files })
      fun snapshot w => ∃ m files, d.files.membership = some m ∧
        Reconciled C.store m d.files files ∧
        w = { d with files := files } ∧ signed C m.inventory issuedAt = .ok snapshot := by
  refine holds_require fun _ => ?_
  refine holds_bind (holds_onStore (read_holds.weaken ?_ ?_))
  · rintro w ⟨m, hm, hw⟩
    exact ⟨w, .inr ⟨m, hm, hw⟩, rfl⟩
  · rintro m w ⟨hm, hw⟩
    refine holds_check ?_
    intro snapshot hsigned
    exact ⟨m, w, hm, hw, rfl, hsigned⟩

end AllocationAuthority
