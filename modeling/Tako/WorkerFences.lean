import Tako.ClusterInventories

/-! # Worker fences

The durable fence state of one node. Activation, revocation and inventory publication hold
`workerFenceAdmissionMu`, and admission holds it for reading, so each definition sees one state of
the files. The node-global barrier is lost when the daemon restarts.
-/
namespace WorkerFences

open GoPrelude NodeIdentity

def maxFenceStateBytes : ℕ := 2 ^ 20

structure WorkerFenceState where
  schemaVersion : ℤ
  highWater : ℕ
  (active previous : Option OperationFence)
  updatedAt : Time
  deriving DecidableEq

structure FenceResponse where
  active : Bool
  highWater : ℕ
  fence : Option OperationFence
  phase : String
  deriving DecidableEq

structure Barrier where
  operationID : String
  expiresAt : Time
  deriving DecidableEq

/-- A daemon's fixed surroundings. `encodedLen` is the length of the encoded state and
`decodeFenceHeader` the bounded base64 and JSON decoding of a request's fence header. -/
structure Server where
  oracles : Oracles
  installation : Option Installation
  dataDir : String
  encodedLen : WorkerFenceState → ℕ
  decodeFenceHeader : String → Option OperationFence

structure Worker where
  fenceFile : Option WorkerFenceState
  inventoryFile : Option ClusterInventory
  barrier : Option Barrier
  deriving DecidableEq

structure FenceFaults where
  (read write barrier : Option String)
  deriving DecidableEq

def holderTokensEqual (candidate expected : String) : Bool :=
  decide (candidate ≠ "") && decide (expected ≠ "") && decide (candidate = expected)

def verifyOperationHolderToken (O : Oracles) (holderToken expectedHash : String) :
    Except String Unit :=
  match operationHolderTokenHash O holderToken with
  | .error _ => .error "controller operation holder credential is invalid"
  | .ok hash =>
    require (holderTokensEqual hash expectedHash)
      "controller operation holder credential is invalid"

def emptyWorkerFenceState : WorkerFenceState := ⟨1, 0, none, none, 0⟩

section

variable (S : Server) (faults : FenceFaults) (fault : Option String) (w : Worker)

def readWorkerFenceState (file : Option WorkerFenceState) : Except String WorkerFenceState :=
  match fault, file with
  | some cause, _ => .error cause
  | none, none => .ok emptyWorkerFenceState
  | none, some state => do
    require (S.encodedLen state ≤ maxFenceStateBytes) "state file exceeds size limit"
    require (state.schemaVersion = 1) "unsupported worker fence state schema"
    .ok state

def validFenceRenewal (active candidate : OperationFence) : Bool :=
  decide (candidate.kind = active.kind ∧ candidate.clusterID = active.clusterID ∧
    candidate.controllerNodeID = active.controllerNodeID ∧
    candidate.membershipGeneration = active.membershipGeneration ∧
    candidate.project = active.project ∧ candidate.environment = active.environment ∧
    candidate.operationID = active.operationID ∧ candidate.operation = active.operation ∧
    candidate.token = active.token ∧ candidate.holderTokenHash = active.holderTokenHash ∧
    candidate.targetNodeIDs = active.targetNodeIDs) &&
  decide (active.issuedAt < candidate.issuedAt ∧ active.expiresAt < candidate.expiresAt)

/-- `inventory.Node(inventory.ControllerNodeID)` with the control-plane role. -/
def trustedController (i : ClusterInventory) (failure : String) : Except String InventoryNode :=
  match i.node i.controllerNodeID with
  | none => .error failure
  | some controller => do
    require (roleControlPlane ∈ controller.roles) failure
    .ok controller

/-- Fences are compared by their encoded texts in the source, with times in UTC. The stored
record is returned for the callers that go on to read it. -/
def verifyExactActiveFence (O : Oracles) (inventoryFile : Option ClusterInventory)
    (candidate : OperationFence) (active : Option OperationFence) (now : Time) :
    Except String OperationFence :=
  match active with
  | none => .error "controller operation fence is not the exact active grant on this node"
  | some active => do
    require (candidate = active)
      "controller operation fence is not the exact active grant on this node"
    let inventory ← wrap (fun cause => "read trusted controller inventory: " ++ cause)
      (readInventory O inventoryFile)
    require (inventory.clusterID = active.clusterID ∧
      inventory.controllerNodeID = active.controllerNodeID ∧
      inventory.generation = active.membershipGeneration)
      "controller operation fence does not match current membership authority"
    let controller ← trustedController inventory "current inventory has no trusted controller key"
    wrap (fun cause => "verify active controller operation fence: " ++ cause)
      (verifyOperationFence O active controller.allocationPublicKey now)
    .ok active

/-- The boolean says whether this call acquired the barrier. -/
def holdOperationBarrier (fence : OperationFence) (w : Worker) : Except String (Bool × Worker) :=
  if w.barrier.isSome then .ok (false, w)
  else match fault with
    | some cause => .error cause
    | none => .ok (true, { w with barrier := some ⟨fence.operationID, fence.expiresAt⟩ })

def bindOperationBarrier (fence : OperationFence) (w : Worker) : Worker :=
  if w.barrier.isSome then { w with barrier := some ⟨fence.operationID, fence.expiresAt⟩ } else w

def releaseOperationBarrier (operationID : String) (w : Worker) : Worker :=
  if w.barrier.any (fun b => b.operationID == operationID) then { w with barrier := none } else w

def barrierTimer (operationID : String) (now : Time) (w : Worker) : Worker :=
  if w.barrier.any (fun b => b.operationID == operationID && decide (b.expiresAt ≤ now)) then
    { w with barrier := none }
  else w

def checkActivation (fence : OperationFence) (holderToken : String) (now : Time) :
    Except String Unit :=
  match S.installation with
  | none => .error "operation fencing requires an enrolled node"
  | some installation => do
    let inventory ← readInventory S.oracles w.inventoryFile
    require (inventory.clusterID = fence.clusterID ∧
      inventory.controllerNodeID = fence.controllerNodeID ∧
      inventory.generation = fence.membershipGeneration)
      "operation fence does not match current controller membership generation"
    let controller ← trustedController inventory "operation fence controller is not authoritative"
    require (fence.targets installation.nodeID) "operation fence does not target this node"
    verifyOperationFence S.oracles fence controller.allocationPublicKey now
    verifyOperationHolderToken S.oracles holderToken fence.holderTokenHash
    require (S.dataDir ≠ "") "data directory is required"

/-- The common end of a first activation, a takeover and a renewal. -/
def installFence (previous : Option OperationFence) (fence : OperationFence) (now : Time)
    (w : Worker) : Except String FenceResponse × Worker :=
  match holdOperationBarrier faults.barrier fence w with
  | .error cause => (.error ("acquire node-global operation barrier: " ++ cause), w)
  | .ok (acquired, held) =>
    match faults.write with
    | some cause =>
      (.error cause, if acquired then releaseOperationBarrier fence.operationID held else held)
    | none =>
      (.ok ⟨true, fence.token, some fence, ""⟩,
        bindOperationBarrier fence { held with
          fenceFile := some ⟨1, fence.token, some fence, previous, now⟩ })

def replayFence (state : WorkerFenceState) (fence : OperationFence)
    (w : Worker) : Except String FenceResponse × Worker :=
  match holdOperationBarrier faults.barrier fence w with
  | .error cause => (.error ("reacquire node-global operation barrier: " ++ cause), w)
  | .ok (_, held) =>
    (.ok ⟨true, state.highWater, state.active, ""⟩, bindOperationBarrier fence held)

def activateWorkerFence (verifyAt now : Time) (fence : OperationFence) (holderToken : String)
    (w : Worker) : Except String FenceResponse × Worker :=
  match checkActivation S w fence holderToken verifyAt with
  | .error cause => (.error cause, w)
  | .ok _ =>
    match readWorkerFenceState S faults.read w.fenceFile with
    | .error cause => (.error cause, w)
    | .ok state =>
      if fence.token < state.highWater then
        (.error
          s!"operation fence token {fence.token} is behind local high-water {state.highWater}", w)
      else if fence.token = state.highWater then
        match state.active with
        | none => (.error s!"operation fence token {fence.token} was already revoked", w)
        | some active =>
          if active.operationID ≠ fence.operationID then
            (.error "operation fence token is already bound to another operation", w)
          else if fence = active then replayFence faults state fence w
          else if validFenceRenewal active fence = false then
            (.error "operation fence renewal is not strictly monotonic", w)
          else installFence faults (some active) fence now w
      else match state.active with
        | none => installFence faults none fence now w
        | some active =>
          if now < active.expiresAt then (.error "another operation fence remains active", w)
          else installFence faults none fence now (releaseOperationBarrier active.operationID w)

/-- The stored grant that is exactly `fence`: the active one, or else its immediate
predecessor. A caller that also bounds the expiry reads the clock once for each of them. -/
def matchingFence (state : WorkerFenceState) (fence : OperationFence)
    (activeAt previousAt : Time) : Except String OperationFence :=
  match verifyExactActiveFence S.oracles w.inventoryFile fence state.active activeAt with
  | .ok active => .ok active
  | .error cause =>
    wrap (fun _ => cause) (verifyExactActiveFence S.oracles w.inventoryFile fence state.previous
      previousAt)

/-- Revocation is cleanup, so an expired grant passes. -/
def verifyRevocation (state : WorkerFenceState) (active : OperationFence)
    (fence : OperationFence) (holderToken : String) : Except String Unit := do
  verifyOperationHolderToken S.oracles holderToken active.holderTokenHash
  let _ ← matchingFence S w state fence 0 0
  .ok ()

def checkTarget (fence : OperationFence) (failure : String) : Except String Unit := do
  require (S.installation.any (fun installation => fence.targets installation.nodeID)) failure
  require (S.dataDir ≠ "") "data directory is required"

def revokeWorkerFenceWithFence (now : Time) (fence : OperationFence) (holderToken : String)
    (w : Worker) : Except String FenceResponse × Worker :=
  match checkTarget S fence "operation fence does not target this node" with
  | .error cause => (.error cause, w)
  | .ok _ =>
    match readWorkerFenceState S faults.read w.fenceFile with
    | .error cause => (.error cause, w)
    | .ok state =>
      match state.active with
      | none =>
        (.ok ⟨false, state.highWater, none, ""⟩, releaseOperationBarrier fence.operationID w)
      | some active =>
        match verifyRevocation S w state active fence holderToken with
        | .error cause => (.error cause, w)
        | .ok _ =>
          if active.operationID = fence.operationID ∧ active.token = fence.token then
            match faults.write with
            | some cause => (.error cause, w)
            | none =>
              (.ok ⟨false, state.highWater, none, ""⟩,
                releaseOperationBarrier fence.operationID { w with
                  fenceFile := some { state with
                    active := none, previous := none, updatedAt := now } })
          else (.ok ⟨false, state.highWater, none, ""⟩, w)

structure MutationRequest where
  (fenceHeader holderHeader queryProject queryEnvironment path : String)
  delete : Bool
  deriving DecidableEq

def queryScopedPaths : List String :=
  ["/v1/images/build", "/v1/images/import", "/v1/proxy-file", "/v1/certs", "/v1/acme-dns",
    "/v1/backups", "/v1/backups/restore", "/v1/backups/cleanup", "/v1/backup-schedule"]

def validateFencedRequestQuery (r : MutationRequest) (fence : OperationFence) :
    Except String Unit := do
  let project := trimSpace r.queryProject
  let env := trimSpace r.queryEnvironment
  require (project ≠ "" → project = fence.project)
    "request project is outside the controller operation fence"
  require (env ≠ "" → env = fence.environment)
    "request environment is outside the controller operation fence"
  require (r.path ∈ queryScopedPaths →
    (r.delete ∨ r.path = "/v1/images/build" ∨ r.path = "/v1/images/import") →
    project ≠ "" ∧ env ≠ "")
    "mutation query has no unambiguous project/environment scope"

/-- Returns the durable record that authorises the request, never the caller's copy. -/
def validateMutationFence (activeAt previousAt : Time)
    (r : MutationRequest) (w : Worker) : Except String OperationFence := do
  let encoded := trimSpace r.fenceHeader
  require (encoded ≠ "") "controller operation fence is required"
  match S.decodeFenceHeader encoded with
  | none => .error "controller operation fence header is invalid"
  | some fence => do
    checkTarget S fence "controller operation fence does not target this node"
    let state ← readWorkerFenceState S fault w.fenceFile
    let accepted ← matchingFence S w state fence activeAt previousAt
    verifyOperationHolderToken S.oracles r.holderHeader accepted.holderTokenHash
    validateFencedRequestQuery r accepted
    .ok accepted

def Worker.stored : WorkerFenceState := w.fenceFile.getD emptyWorkerFenceState

end

variable {w : Worker}

theorem readWorkerFenceState_stored (h : readWorkerFenceState S fault w.fenceFile = .ok state) :
    state = w.stored := by
  unfold readWorkerFenceState at h
  unfold Worker.stored
  split at h
  · cases h
  · rename_i hf
    simp only [Except.ok.injEq] at h
    rw [hf, Option.getD_none, h]
  · rename_i hf
    simp only [bind_eq_ok, Except.ok.injEq] at h
    obtain ⟨_, _, _, _, rfl⟩ := h
    rw [hf, Option.getD_some]

@[simp] theorem releaseOperationBarrier_fenceFile :
    (releaseOperationBarrier operationID w).fenceFile = w.fenceFile := by
  unfold releaseOperationBarrier
  split_ifs <;> rfl

@[simp] theorem bindOperationBarrier_fenceFile :
    (bindOperationBarrier fence w).fenceFile = w.fenceFile := by
  unfold bindOperationBarrier
  split_ifs <;> rfl

@[simp] theorem barrierTimer_fenceFile (operationID : String) (now : Time) (w : Worker) :
    (barrierTimer operationID now w).fenceFile = w.fenceFile := by
  unfold barrierTimer
  split_ifs <;> rfl

theorem holdOperationBarrier_fenceFile
    (h : holdOperationBarrier fault fence w = .ok (acquired, held)) :
    held.fenceFile = w.fenceFile := by
  unfold holdOperationBarrier at h
  split at h
  · cases h; rfl
  · split at h
    · cases h
    · cases h; rfl

inductive ActivateOutcome (fence : OperationFence) (now : Time) (file : Option WorkerFenceState)
    (state : WorkerFenceState) : Except String FenceResponse → Option WorkerFenceState → Prop where
  | refused : ActivateOutcome fence now file state (.error cause) file
  | replayed : state.active = some fence → fence.token = state.highWater →
      ActivateOutcome fence now file state (.ok response) file
  | renewed : state.active = some active → fence.token = state.highWater →
      validFenceRenewal active fence →
      ActivateOutcome fence now file state (.ok response)
        (some ⟨1, fence.token, some fence, some active, now⟩)
  | accepted : state.highWater < fence.token →
      (∀ active, state.active = some active → active.expiresAt ≤ now) →
      ActivateOutcome fence now file state (.ok response)
        (some ⟨1, fence.token, some fence, none, now⟩)

/-- The end of an activation leaves the file, or makes `fence` its active grant. -/
theorem install_outcome (hfile : w.fenceFile = file)
    (hstored : ∀ response, ActivateOutcome fence now file state (.ok response)
      (some ⟨1, fence.token, some fence, previous, now⟩)) :
    ActivateOutcome fence now file state (installFence faults previous fence now w).1
      (installFence faults previous fence now w).2.fenceFile := by
  subst file
  unfold installFence
  split
  · exact .refused
  · rename_i acquired held hheld
    have hfile := holdOperationBarrier_fenceFile hheld
    split
    · rw [apply_ite Worker.fenceFile, releaseOperationBarrier_fenceFile, ite_self, hfile]
      exact .refused
    · rw [bindOperationBarrier_fenceFile]
      exact hstored _

theorem activate_outcome (S : Server) (faults : FenceFaults) (verifyAt now : Time)
    (fence : OperationFence) (holderToken : String) (w : Worker) :
    ActivateOutcome fence now w.fenceFile w.stored
      (activateWorkerFence S faults verifyAt now fence holderToken w).1
      (activateWorkerFence S faults verifyAt now fence holderToken w).2.fenceFile := by
  unfold activateWorkerFence
  split
  · exact .refused
  split
  · exact .refused
  rename_i state hread
  have hstate := readWorkerFenceState_stored hread
  subst state
  split
  · exact .refused
  split
  · -- The token is the high-water mark: a replay or a renewal of the active grant.
    rename_i htoken
    split
    · exact .refused
    rename_i active hactive
    split
    · exact .refused
    split
    · subst active
      unfold replayFence
      split
      · exact .refused
      · rename_i hheld
        rw [bindOperationBarrier_fenceFile, holdOperationBarrier_fenceFile hheld]
        exact .replayed hactive htoken
    split
    · exact .refused
    rename_i hrenewal
    exact install_outcome rfl fun _ => .renewed hactive htoken (by simpa using hrenewal)
  · -- The token is above it: a first grant, or a takeover of an expired one.
    have habove : w.stored.highWater < fence.token := by omega
    split
    · rename_i hactive
      exact install_outcome rfl fun _ => .accepted habove (by simp [hactive])
    · rename_i active hactive
      split
      · exact .refused
      rename_i hexp
      refine install_outcome releaseOperationBarrier_fenceFile fun _ => .accepted habove ?_
      intro a ha
      rw [hactive] at ha
      cases ha
      exact not_lt.mp hexp

theorem verifyExactActiveFence_eq
    (h : verifyExactActiveFence O file candidate active now = .ok stored) :
    active = some candidate ∧ stored = candidate := by
  unfold verifyExactActiveFence at h
  split at h
  · cases h
  · simp only [bind_eq_ok, require_eq_ok, Except.ok.injEq] at h
    obtain ⟨_, rfl, _, _, _, _, _, _, _, _, rfl⟩ := h
    exact ⟨rfl, rfl⟩

theorem matchingFence_eq (h : matchingFence S w state fence activeAt previousAt = .ok stored) :
    (state.active = some fence ∨ state.previous = some fence) ∧ stored = fence := by
  unfold matchingFence at h
  split at h
  · rename_i active hactive
    simp only [Except.ok.injEq] at h
    subst stored
    obtain ⟨ha, he⟩ := verifyExactActiveFence_eq hactive
    exact ⟨.inl ha, he⟩
  · simp only [wrap_eq_ok] at h
    obtain ⟨hp, he⟩ := verifyExactActiveFence_eq h
    exact ⟨.inr hp, he⟩

inductive RevokeOutcome (fence : OperationFence) (now : Time) (file : Option WorkerFenceState)
    (state : WorkerFenceState) : Except String FenceResponse → Option WorkerFenceState → Prop where
  | refused : RevokeOutcome fence now file state (.error cause) file
  | idle : state.active = none → RevokeOutcome fence now file state (.ok response) file
  | cleared : state.active = some active → active.token = fence.token →
      RevokeOutcome fence now file state (.ok response)
        (some { state with active := none, previous := none, updatedAt := now })
  | kept : state.active = some active →
      ¬ (active.operationID = fence.operationID ∧ active.token = fence.token) →
      state.previous = some fence → RevokeOutcome fence now file state (.ok response) file

theorem revoke_outcome (S : Server) (faults : FenceFaults) (now : Time) (fence : OperationFence)
    (holderToken : String) (w : Worker) :
    RevokeOutcome fence now w.fenceFile w.stored
      (revokeWorkerFenceWithFence S faults now fence holderToken w).1
      (revokeWorkerFenceWithFence S faults now fence holderToken w).2.fenceFile := by
  unfold revokeWorkerFenceWithFence
  split
  · exact .refused
  split
  · exact .refused
  rename_i state hread
  have hstate := readWorkerFenceState_stored hread
  subst state
  split
  · rename_i hactive
    rw [releaseOperationBarrier_fenceFile]
    exact .idle hactive
  rename_i active hactive
  split
  · exact .refused
  rename_i hverified
  split
  · rename_i hsame
    split
    · exact .refused
    · rw [releaseOperationBarrier_fenceFile]
      exact .cleared hactive hsame.2
  · rename_i hother
    simp only [verifyRevocation, bind_eq_ok] at hverified
    obtain ⟨_, _, _, hmatch, _⟩ := hverified
    rcases (matchingFence_eq hmatch).1 with ha | hp
    · rw [hactive] at ha
      cases ha
      exact absurd ⟨rfl, rfl⟩ hother
    · exact .kept hactive hother hp

/-- Only an exact copy of the active grant or of its predecessor is admitted. -/
theorem validateMutationFence_eq
    (h : validateMutationFence S fault activeAt previousAt r w = .ok accepted) :
    S.decodeFenceHeader (trimSpace r.fenceHeader) = some accepted ∧
      (w.stored.active = some accepted ∨ w.stored.previous = some accepted) := by
  simp only [validateMutationFence, bind_eq_ok, require_eq_ok] at h
  obtain ⟨_, _, h⟩ := h
  split at h
  · cases h
  rename_i fence hdecode
  simp only [bind_eq_ok, Except.ok.injEq] at h
  obtain ⟨_, _, state, hread, stored, hmatch, _, _, _, _, rfl⟩ := h
  have hstate := readWorkerFenceState_stored hread
  subst state
  obtain ⟨hor, rfl⟩ := matchingFence_eq hmatch
  exact ⟨hdecode, hor⟩

end WorkerFences
