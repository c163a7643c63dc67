import Tako.ClusterInventories

/-! # Platform membership

The controller's authoritative record of nodes, tombstones, join tokens, allocations and
removals, its validation, and the mutations that the store applies to it. A mutation works
on the state in memory; whether and how its result is persisted is the store's business.
-/
namespace PlatformMembership

open GoPrelude NodeIdentity SliceOrder

def membershipKind : String := "PlatformMembership"
def membershipAPIVersion : String := "tako.io/v1"
def joinTokenPrefix : String := "tako_join_v1"
def reservationPrefix : String := "tako_reserve_v1"
def defaultJoinTokenTTL : ℤ := 15 * minute
def maximumJoinTokenTTL : ℤ := 24 * hour

abbrev MembershipNode := InventoryNode

structure AllocationHighWater where
  (nodeID key : String)
  generation : ℕ
  fingerprint : String
  revoked : Bool
  deriving DecidableEq

inductive RemovalPhase where
  | revokePeers
  | removeMember
  | cleanupTarget
  | other (text : String)
  deriving DecidableEq

def RemovalPhase.text : RemovalPhase → String
  | .revokePeers => "revoke-peers"
  | .removeMember => "remove-membership"
  | .cleanupTarget => "cleanup-target"
  | .other text => text

structure NodeRemovalOperation where
  node : MembershipNode
  phase : RemovalPhase
  generation : ℕ
  (createdAt updatedAt : Time)
  deriving DecidableEq

structure JoinTokenRecord where
  (id expectedNodeID tokenHash : String)
  (createdAt expiresAt consumedAt : Time)
  reservationHash : String
  (reservedAt reservationExpiresAt : Time)
  deriving DecidableEq

structure MembershipState where
  (apiVersion kind clusterID : String)
  (generation allocationGeneration : ℕ)
  (controllerNodeID meshCIDR : String)
  nodes : List MembershipNode
  tombstones : List NodeTombstone
  joinTokens : List JoinTokenRecord
  activeAllocations : List ActiveAllocation
  allocationHighWater : List AllocationHighWater
  removalOperations : List NodeRemovalOperation
  updatedAt : Time
  deriving DecidableEq

structure JoinToken where
  (token clusterID expectedNodeID : String)
  expiresAt : Time
  deriving DecidableEq

structure JoinTokenReservation where
  (reservation expectedNodeID : String)
  expiresAt : Time
  deriving DecidableEq

structure EnrollWorkerRequest where
  (reservation nodeID nodeName meshIP meshEndpoint sshHost : String)
  sshPort : ℤ
  (sshUser sshHostKeyType sshHostKey sshHostKeyFingerprint allocationPublicKey meshPublicKey :
    String)
  (controllerMeshEndpoint controllerSSHHost : String)
  controllerSSHPort : ℤ
  (controllerSSHUser controllerSSHHostKeyType controllerSSHHostKey controllerSSHHostKeyFingerprint :
    String)
  deriving DecidableEq

variable (O : Oracles)

def names (stored nodeID : String) : Bool := equalFold stored (trimSpace nodeID)

section

variable (m : MembershipState)

def MembershipState.controllerCount : ℕ :=
  m.nodes.countP fun node => decide (roleControlPlane ∈ node.roles)

variable (nodeID : String)

def MembershipState.node : Option MembershipNode :=
  m.nodes.find? fun node => names node.nodeID nodeID

def MembershipState.tombstone : Option NodeTombstone :=
  m.tombstones.find? fun t => names t.nodeID nodeID

def MembershipState.tombstoned : Bool := m.tombstones.any fun t => names t.nodeID nodeID

def MembershipState.removalOperation : Option NodeRemovalOperation :=
  m.removalOperations.find? fun operation => names operation.node.nodeID nodeID

end

def MembershipState.inventory (m : MembershipState) : ClusterInventory where
  apiVersion := inventoryAPIVersion
  kind := inventoryKind
  clusterID := m.clusterID
  generation := m.generation
  allocationGeneration := m.allocationGeneration
  controllerNodeID := m.controllerNodeID
  meshCIDR := m.meshCIDR
  updatedAt := m.updatedAt
  nodes := m.nodes
  tombstones := m.tombstones
  activeAllocations := m.activeAllocations

def validateHighWater : List String → List AllocationHighWater → Except String Unit
  | _, [] => .ok ()
  | seen, high :: rest => do
    require (validateNodeID high.nodeID = .ok () ∧ high.key ≠ "" ∧ high.generation ≠ 0 ∧
      high.fingerprint.utf8ByteSize = 64) "allocation high-water record is invalid"
    require (compoundKey high.nodeID high.key ∉ seen) "allocation high-water record is duplicated"
    validateHighWater (compoundKey high.nodeID high.key :: seen) rest

def validateJoinTokens : List String → List JoinTokenRecord → Except String Unit
  | _, [] => .ok ()
  | seen, token :: rest => do
    require (token.id ≠ "" ∧ token.tokenHash ≠ "" ∧ token.createdAt ≠ 0 ∧
      token.createdAt ≤ token.expiresAt) "join token record is invalid"
    wrap (fun _ => "join token expected node ID is invalid") (validateNodeID token.expectedNodeID)
    require (token.id ∉ seen) "join token ID is duplicated"
    require ((token.reservationHash = "" ↔ token.reservedAt = 0) ∧
      (token.reservationHash = "" ↔ token.reservationExpiresAt = 0) ∧
      (token.reservationExpiresAt ≠ 0 → token.reservedAt ≤ token.reservationExpiresAt))
      "join token reservation record is invalid"
    validateJoinTokens (token.id :: seen) rest

def validateRemovals (m : MembershipState) : List String → List NodeRemovalOperation →
    Except String Unit
  | _, [] => .ok ()
  | seen, operation :: rest => do
    require (operation.node.nodeID ≠ "" ∧ operation.createdAt ≠ 0 ∧
      operation.createdAt ≤ operation.updatedAt ∧ operation.generation ≠ 0)
      "node removal operation is invalid"
    require (operation.phase = .revokePeers ∨ operation.phase = .removeMember ∨
      operation.phase = .cleanupTarget)
      s!"node removal operation {operation.node.nodeID} has invalid phase"
    require (operation.node.nodeID ∉ seen) "node removal operation is duplicated"
    require (operation.phase = .cleanupTarget → m.tombstoned operation.node.nodeID)
      "cleanup-phase removal must have a tombstone"
    require (operation.phase ≠ .cleanupTarget → (m.node operation.node.nodeID).isSome)
      "pre-removal operation must reference an active node"
    validateRemovals m (operation.node.nodeID :: seen) rest

def MembershipState.validate (m : MembershipState) (now : Time) : Except String Unit := do
  require (m.apiVersion = membershipAPIVersion ∧ m.kind = membershipKind)
    "platform membership apiVersion/kind is invalid"
  validateClusterID m.clusterID
  require (m.generation ≠ 0 ∧ m.updatedAt ≠ 0 ∧ m.updatedAt ≤ now + minute)
    "platform membership generation/timestamp is invalid"
  m.inventory.validate O
  validateHighWater [] m.allocationHighWater
  validateJoinTokens [] m.joinTokens
  validateRemovals m [] m.removalOperations

inductive Receipt where
  | state
  | node (node : MembershipNode)
  | tombstone (tombstone : NodeTombstone)
  | removal (operation : NodeRemovalOperation)
  | token (token : JoinToken)
  | reservation (reservation : JoinTokenReservation)
  deriving DecidableEq

/-- The result of a mutation. No `next` is `errMembershipNoChange`. `freshAllocations` says
that the allocation slice was built anew: the comparison that decides whether allocations
changed then tells an empty slice from an absent one. -/
structure Change where
  next : Option MembershipState
  freshAllocations : Bool
  receipt : Receipt
  deriving DecidableEq

def unchanged (receipt : Receipt) : Change := ⟨none, false, receipt⟩
def changed (next : MembershipState) (receipt : Receipt) : Change := ⟨some next, false, receipt⟩

section

variable (m : MembershipState) (nodeID : String)

def MembershipState.updateNode (f : MembershipNode → MembershipNode) : MembershipState :=
  { m with nodes := modifyFirst (fun node => names node.nodeID nodeID) f m.nodes }

/-- `revokeNodeAllocations`: the high-water records are left as they are. -/
def MembershipState.revokeNodeAllocations : MembershipState :=
  { m with activeAllocations := m.activeAllocations.filter fun a => decide (a.nodeID ≠ nodeID) }

def MembershipState.updateRemoval (f : NodeRemovalOperation → NodeRemovalOperation) :
    MembershipState :=
  { m with
    removalOperations :=
      modifyFirst (fun operation => names operation.node.nodeID nodeID) f m.removalOperations }

/-- The node `nodeID`, or the refusal of every operation on an inactive one. -/
def MembershipState.activeNode : Except String MembershipNode :=
  match m.node nodeID with
  | some node => .ok node
  | none => .error s!"node {nodeID} is not active"

end

def firstPlatformMeshIP (cidr : String) : Except String String :=
  if trimSpace cidr = "" then .ok ""
  else do
    require (O.parseIPv4Prefix (trimSpace cidr)) "platform mesh CIDR must be valid IPv4"
    match O.firstAddress (trimSpace cidr) with
    | some address => .ok address
    | none => .error "platform mesh CIDR has no usable node address"

def firstMembership (installation : Installation) (meshCIDR meshPublicKey meshEndpoint meshIP
    credentialID : String) (now : Time) : MembershipState where
  apiVersion := membershipAPIVersion
  kind := membershipKind
  clusterID := installation.clusterID
  generation := 1
  allocationGeneration := 0
  controllerNodeID := installation.nodeID
  meshCIDR := trimSpace meshCIDR
  nodes := [{
    nodeID := installation.nodeID
    nodeName := installation.nodeName
    lifecycle := .schedulable
    roles := sortStrings installation.enrollmentRoles
    schedulable := true
    meshIP := meshIP
    meshEndpoint := trimSpace meshEndpoint
    meshCredentialID := credentialID
    meshPublicKey := meshPublicKey
    meshCredentialStatus := .active
    sshHost := ""
    sshPort := 0
    sshUser := ""
    sshHostKeyType := ""
    sshHostKey := ""
    sshHostKeyFingerprint := ""
    allocationPublicKey := installation.allocationPublicKey
    joinedAt := now
    updatedAt := now }]
  tombstones := []
  joinTokens := []
  activeAllocations := []
  allocationHighWater := []
  removalOperations := []
  updatedAt := now

def initializeFirstNode (installation : Installation) (meshCIDR meshPublicKey meshEndpoint : String)
    (m : MembershipState) (now : Time) : Except String Change :=
  if m.clusterID ≠ "" then do
    require (m.clusterID = installation.clusterID ∧ m.controllerNodeID = installation.nodeID)
      "existing membership belongs to another controller"
    require ((m.node installation.nodeID).any
      (fun existing => decide (existing.meshPublicKey = trimSpace meshPublicKey)))
      "existing controller membership is bound to another mesh identity"
    .ok (unchanged .state)
  else do
    let meshIP ← firstPlatformMeshIP O meshCIDR
    let credentialID ← meshCredentialID O meshPublicKey
    .ok (changed (firstMembership installation meshCIDR meshPublicKey meshEndpoint meshIP
      credentialID now) .state)

def hashJoinToken (token : String) : String := O.sha256Hex (trimSpace token)

/-- `id` and `secret` are what `randomIdentifier` returns. -/
def createJoinToken (expectedNodeID : String) (ttl : ℤ) (id secret : Except String String)
    (m : MembershipState) (now : Time) : Except String Change := do
  require ((m.node expectedNodeID).isNone ∧ m.tombstoned expectedNodeID = false)
    "node ID is already active or permanently tombstoned"
  let id ← id
  let secret ← secret
  let token := joinTokenPrefix ++ "." ++ id ++ "." ++ secret
  let expires := now + (if ttl = 0 then defaultJoinTokenTTL else ttl)
  let record := ⟨id, toLower expectedNodeID, hashJoinToken O token, now, expires, 0, "", 0, 0⟩
  .ok (changed { m with joinTokens := m.joinTokens ++ [record] }
    (.token ⟨token, m.clusterID, toLower expectedNodeID, expires⟩))

def validateJoinToken (m : MembershipState) (token nodeID : String) (now : Time) :
    Except String JoinTokenRecord :=
  match split (trimSpace token) '.' with
  | [header, id, _] => do
    require (header = joinTokenPrefix) "join token is malformed"
    match m.joinTokens.find? (fun record => record.id == id) with
    | none => .error "join token is unknown"
    | some record => do
      require (record.tokenHash = hashJoinToken O token) "join token is invalid"
      require (record.consumedAt = 0) "join token was already consumed"
      require (now < record.expiresAt) "join token has expired"
      require (equalFold record.expectedNodeID nodeID) "join token is bound to another node ID"
      .ok record
  | _ => .error "join token is malformed"

def JoinTokenRecord.reserved (record : JoinTokenRecord) (hash : String) (now : Time) :
    JoinTokenRecord :=
  { record with
    reservationHash := hash
    reservedAt := now
    reservationExpiresAt := if record.expiresAt < now + 5 * minute then record.expiresAt
      else now + 5 * minute }

def MembershipState.updateToken (m : MembershipState) (id : String)
    (f : JoinTokenRecord → JoinTokenRecord) : MembershipState :=
  { m with joinTokens := modifyFirst (fun record => record.id == id) f m.joinTokens }

def reserveJoinToken (token nodeID : String) (secret : Except String String) (m : MembershipState)
    (now : Time) : Except String Change := do
  let nodeID := toLower (trimSpace nodeID)
  let record ← validateJoinToken O m token nodeID now
  let secret ← secret
  let reservation := reservationPrefix ++ "." ++ record.id ++ "." ++ secret
  let reserved := record.reserved (hashJoinToken O reservation) now
  .ok (changed (m.updateToken record.id fun r => r.reserved (hashJoinToken O reservation) now)
    (.reservation ⟨reservation, nodeID, reserved.reservationExpiresAt⟩))

def consumeJoinReservation (m : MembershipState) (reservation nodeID : String) (now : Time) :
    Except String JoinTokenRecord :=
  match split (trimSpace reservation) '.' with
  | [header, id, _] => do
    require (header = reservationPrefix) "join reservation is malformed"
    match m.joinTokens.find? (fun record => record.id == id) with
    | none => .error "join reservation is unknown"
    | some record => do
      require (record.consumedAt = 0) "join token was already consumed"
      require (record.reservationHash ≠ "" ∧ record.reservationHash = hashJoinToken O reservation)
        "join reservation is invalid"
      require (now < record.reservationExpiresAt) "join reservation has expired"
      require (equalFold record.expectedNodeID nodeID)
        "join reservation is bound to another node ID"
      .ok record
  | _ => .error "join reservation is malformed"

def JoinTokenRecord.consumed (record : JoinTokenRecord) (now : Time) : JoinTokenRecord :=
  { record with
    consumedAt := now, reservationHash := "", reservedAt := 0, reservationExpiresAt := 0 }

/-- The pattern `^[A-Za-z0-9][A-Za-z0-9.-]{0,252}$` of mesh hosts. -/
def meshHostPattern (value : String) : Bool :=
  match chars value with
  | [] => false
  | c :: rest =>
    (isLowerLetter c || isUpperLetter c || isDigit c) && decide (rest.length ≤ 252) &&
      rest.all fun d => isLowerLetter d || isUpperLetter d || isDigit d || d == '.' || d == '-'

def validMeshEndpoint (value : String) : Bool :=
  O.parseIP (trimSpace value) || meshHostPattern (trimSpace value)

section

variable (request : EnrollWorkerRequest)

def validateEnrollmentRequest (meshCIDR : String) : Except String Unit := do
  require (nodeNamePattern request.nodeName) "invalid worker node name"
  require (O.validPublicKey request.allocationPublicKey) "invalid allocation public key"
  wrap (fun cause => "invalid worker mesh public key: " ++ cause)
    (validateMeshPublicKey O request.meshPublicKey)
  require (validMeshEndpoint O request.meshEndpoint) "invalid worker mesh endpoint"
  require (validMeshEndpoint O request.controllerMeshEndpoint) "invalid controller mesh endpoint"
  require (request.sshHost ≠ "" ∧ 1 ≤ request.sshPort ∧ request.sshPort ≤ 65535 ∧
    request.sshUser ≠ "" ∧ request.sshHostKeyType ≠ "" ∧ request.sshHostKey ≠ "" ∧
    request.sshHostKeyFingerprint ≠ "") "a complete pinned SSH host identity is required"
  require (O.validBase64 request.sshHostKey) "pinned SSH host key is invalid"
  require (request.controllerSSHHost ≠ "" ∧ 1 ≤ request.controllerSSHPort ∧
    request.controllerSSHPort ≤ 65535 ∧ request.controllerSSHUser ≠ "" ∧
    request.controllerSSHHostKeyType ≠ "" ∧ request.controllerSSHHostKey ≠ "" ∧
    request.controllerSSHHostKeyFingerprint ≠ "")
    "a complete pinned controller SSH host identity is required"
  require (O.validBase64 request.controllerSSHHostKey) "pinned controller SSH host key is invalid"
  require (meshCIDR ≠ "" → O.parseIP request.meshIP ∧ O.cidrContains meshCIDR request.meshIP)
    "worker mesh IP is outside the cluster mesh CIDR"

def EnrollWorkerRequest.normalized : EnrollWorkerRequest :=
  { request with
    nodeID := toLower (trimSpace request.nodeID)
    nodeName := trimSpace request.nodeName
    sshHost := trimSpace request.sshHost
    meshIP := trimSpace request.meshIP }

def EnrollWorkerRequest.describeController (now : Time) (controller : MembershipNode) :
    MembershipNode :=
  { controller with
    meshEndpoint := trimSpace request.controllerMeshEndpoint
    sshHost := trimSpace request.controllerSSHHost
    sshPort := request.controllerSSHPort
    sshUser := trimSpace request.controllerSSHUser
    sshHostKeyType := request.controllerSSHHostKeyType
    sshHostKey := request.controllerSSHHostKey
    sshHostKeyFingerprint := request.controllerSSHHostKeyFingerprint
    updatedAt := now }

def EnrollWorkerRequest.worker (credentialID : String) (now : Time) : MembershipNode where
  nodeID := request.nodeID
  nodeName := request.nodeName
  lifecycle := .joining
  roles := [roleWorker]
  schedulable := false
  meshIP := request.meshIP
  meshEndpoint := request.meshEndpoint
  meshCredentialID := credentialID
  meshPublicKey := request.meshPublicKey
  meshCredentialStatus := .active
  sshHost := request.sshHost
  sshPort := request.sshPort
  sshUser := request.sshUser
  sshHostKeyType := request.sshHostKeyType
  sshHostKey := request.sshHostKey
  sshHostKeyFingerprint := request.sshHostKeyFingerprint
  allocationPublicKey := request.allocationPublicKey
  joinedAt := now
  updatedAt := now

def enrollWorker (m : MembershipState) (now : Time) : Except String Change := do
  let request := request.normalized
  validateNodeID request.nodeID
  require ((m.node request.nodeID).isNone ∧ m.tombstoned request.nodeID = false)
    "node ID is already active or permanently tombstoned"
  validateEnrollmentRequest O request m.meshCIDR
  require ((m.node m.controllerNodeID).isSome) "membership controller is not active"
  let record ← consumeJoinReservation O m request.reservation request.nodeID now
  let credentialID ← meshCredentialID O request.meshPublicKey
  let node := request.worker credentialID now
  let described := m.updateNode m.controllerNodeID (request.describeController now)
  let consumed := described.updateToken record.id fun r => r.consumed now
  .ok (changed { consumed with nodes := consumed.nodes ++ [node] } (.node node))

end

section

variable (nodeID : String)

/-- The lifecycle moves. Only a move to a state that takes no work drops the node's
allocations. -/
def transition (source : List Lifecycle) (target : Lifecycle) (schedulable : Bool)
    (m : MembershipState) (now : Time) : Except String Change := do
  let node ← m.activeNode nodeID
  if node.lifecycle = target ∧ node.schedulable = schedulable then .ok (unchanged (.node node))
  else do
    require (node.lifecycle ∈ source)
      s!"node {nodeID} cannot transition from {node.lifecycle.text} to {target.text}"
    let move := fun n : MembershipNode =>
      { n with lifecycle := target, schedulable := schedulable, updatedAt := now }
    let moved := m.updateNode nodeID move
    let next := if schedulable then moved else moved.revokeNodeAllocations node.nodeID
    .ok (changed next (.node (move node)))

def markReady : MembershipState → Time → Except String Change :=
  transition nodeID [.joining] .ready false

def markSchedulable : MembershipState → Time → Except String Change :=
  transition nodeID [.ready, .cordoned] .schedulable true

def cordon : MembershipState → Time → Except String Change :=
  transition nodeID [.ready, .schedulable] .cordoned false

def setNodeMeshEndpoint (endpoint : String) (m : MembershipState) (now : Time) :
    Except String Change := do
  let endpoint := trimSpace endpoint
  let node ← m.activeNode nodeID
  if node.meshEndpoint = endpoint then .ok (unchanged (.node node))
  else
    let move := fun n : MembershipNode => { n with meshEndpoint := endpoint, updatedAt := now }
    .ok (changed (m.updateNode nodeID move) (.node (move node)))

def removable (node : MembershipNode) (m : MembershipState) : Except String Unit := do
  require (node.lifecycle = .draining) s!"node {nodeID} must be draining before removal"
  require (roleControlPlane ∈ node.roles → 1 < m.controllerCount)
    "refusing to remove the final controller"

variable (m : MembershipState) (now : Time)

/-- `transition` with one more guard: the final controller is not drained. -/
def beginDrain : Except String Change := do
  let node ← m.activeNode nodeID
  if node.lifecycle = .draining ∧ node.schedulable = false then .ok (unchanged (.node node))
  else do
    require (node.lifecycle = .cordoned)
      s!"node {nodeID} cannot transition from {node.lifecycle.text} to {Lifecycle.draining.text}"
    require (roleControlPlane ∈ node.roles → 1 < m.controllerCount)
      "refusing to drain the final controller"
    let move := fun n : MembershipNode =>
      { n with lifecycle := .draining, schedulable := false, updatedAt := now }
    .ok (changed ((m.updateNode nodeID move).revokeNodeAllocations node.nodeID) (.node (move node)))

def prepareRemoval : Except String Change :=
  match m.removalOperation nodeID with
  | some operation => .ok (unchanged (.removal operation))
  | none => do
    let node ← m.activeNode nodeID
    removable nodeID node m
    let operation := ⟨node, .revokePeers, uint64Succ m.generation, now, now⟩
    .ok (changed { m with removalOperations := m.removalOperations ++ [operation] }
      (.removal operation))

def markRemovalPeersRevoked : Except String Change :=
  match m.removalOperation nodeID with
  | none => .error s!"node {nodeID} has no pending removal"
  | some operation =>
    if operation.phase = .removeMember ∨ operation.phase = .cleanupTarget then
      .ok (unchanged (.removal operation))
    else do
      require (operation.phase = .revokePeers)
        s!"node {nodeID} removal has invalid phase {quoted operation.phase.text}"
      let move := fun o : NodeRemovalOperation =>
        { o with phase := .removeMember, updatedAt := now }
      .ok (changed (m.updateRemoval nodeID move) (.removal (move operation)))

def NodeTombstone.ofNode (node : MembershipNode) (generation : ℕ) (now : Time) : NodeTombstone where
  nodeID := node.nodeID
  nodeName := node.nodeName
  removedAt := now
  removedGeneration := generation
  revokedMeshCredentialID := node.meshCredentialID
  revokedMeshPublicKey := node.meshPublicKey
  allocationKeyFingerprint := O.sha256Hex node.allocationPublicKey

def remove : Except String Change :=
  match m.tombstone nodeID with
  | some existing => .ok (unchanged (.tombstone existing))
  | none => do
    let node ← m.activeNode nodeID
    removable nodeID node m
    require ((m.removalOperation nodeID).any (fun o => decide (o.phase = .removeMember)))
      s!"node {nodeID} mesh peers must be durably revoked before membership removal"
    let tombstone := NodeTombstone.ofNode O node (uint64Succ m.generation) now
    let buried := { m with
      nodes := m.nodes.eraseP fun n => names n.nodeID nodeID
      tombstones := m.tombstones ++ [tombstone] }
    let move := fun o : NodeRemovalOperation =>
      { o with phase := .cleanupTarget, generation := uint64Succ m.generation, updatedAt := now }
    .ok (changed ((buried.revokeNodeAllocations node.nodeID).updateRemoval nodeID move)
      (.tombstone tombstone))

def completeRemoval (_now : Time) : Except String Change :=
  match m.removalOperation nodeID with
  | none => do
    require (m.tombstoned nodeID) s!"node {nodeID} has no pending removal"
    .ok (unchanged .state)
  | some operation => do
    require (operation.phase = .cleanupTarget)
      s!"node {nodeID} removal is not awaiting target cleanup"
    .ok (changed { m with removalOperations :=
      m.removalOperations.eraseP fun o => names o.node.nodeID nodeID } .state)

end

def safeAllocationScopeName (value : String) : Bool :=
  decide (value ≠ "") && decide (value.utf8ByteSize ≤ 128) && decide (value ≠ ".") &&
    decide (value ≠ "..") &&
    (chars value).all fun c =>
      isLowerLetter c || isUpperLetter c || isDigit c || c == '-' || c == '_' || c == '.'

section

variable (m : MembershipState) (project env : String) (allocations : List ActiveAllocation)
  (a : ActiveAllocation) (high : AllocationHighWater)

def inScope : Bool := decide (a.project = project ∧ a.environment = env)

def verifyActiveAllocationOrigin (publicKey : String) : Except String Unit :=
  O.verify publicKey (.allocation { a with signature := "", authorizedAt := 0 }) a.signature

def allocationEvidenceFingerprint : String := O.allocationDigest { a with authorizedAt := 0 }

def expectedAllocationKey : String :=
  if a.revision ≠ "" then
    s!"{a.kind}/{project}/{env}/{a.service}/{a.revision}/{a.slot}"
  else s!"{a.kind}/{project}/{env}/{a.service}/{a.slot}"

def checkAllocation : Except String Unit := do
  require (a.project = project ∧ a.environment = env ∧ a.clusterID = m.clusterID ∧
    a.kind = "mesh-upstream") s!"allocation {a.key} is outside the controller authorization scope"
  require (safeAllocationScopeName a.service ∧
    (a.revision ≠ "" → safeAllocationScopeName a.revision))
    s!"allocation {a.key} has invalid service/revision identity"
  require (a.key = expectedAllocationKey project env a)
    s!"allocation {a.key} has an invalid durable key"
  match m.inventory.node a.nodeID with
  | none => .error s!"allocation {a.key} belongs to a non-schedulable destination"
  | some node => do
    require (node.schedulable ∧ node.lifecycle = .schedulable ∧
      node.meshCredentialStatus = .active ∧ a.hostIP = node.meshIP)
      s!"allocation {a.key} belongs to a non-schedulable destination"
    wrap (fun cause => s!"verify worker allocation {a.key}: {cause}")
      (verifyActiveAllocationOrigin O a node.allocationPublicKey)

def isHighWaterOf : Bool := decide (high.nodeID = a.nodeID ∧ high.key = a.key)

def highWaterOf (fingerprint : String) (a : ActiveAllocation) : AllocationHighWater :=
  ⟨a.nodeID, a.key, a.generation, fingerprint, false⟩

def raiseHighWater (highs : List AllocationHighWater) (a : ActiveAllocation) :
    Except String (List AllocationHighWater) :=
  let fingerprint := allocationEvidenceFingerprint O a
  match highs.find? (isHighWaterOf a) with
  | none => .ok (highs ++ [highWaterOf fingerprint a])
  | some high => do
    require (high.generation ≤ a.generation)
      (s!"allocation {a.key} generation {a.generation} is behind durable high-water " ++
        s!"{high.generation}")
    require (a.generation = high.generation → high.revoked = false ∧ fingerprint = high.fingerprint)
      (s!"allocation {a.key} generation {a.generation} was revoked or conflicts with its " ++
        "durable proof")
    if high.generation < a.generation then
      .ok (modifyFirst (isHighWaterOf a) (fun _ => highWaterOf fingerprint a) highs)
    else .ok highs

def authorizeEach : List String → List AllocationHighWater → List ActiveAllocation →
    Except String (List AllocationHighWater)
  | _, highs, [] => .ok highs
  | seen, highs, a :: rest => do
    checkAllocation O m project env a
    require (compoundKey a.nodeID a.key ∉ seen) s!"allocation {a.key} is duplicated"
    let highs ← raiseHighWater O highs a
    authorizeEach (compoundKey a.nodeID a.key :: seen) highs rest

def revokeOmitted : AllocationHighWater :=
  if m.activeAllocations.any (fun existing =>
        isHighWaterOf existing high && inScope project env existing) ∧
      compoundKey high.nodeID high.key ∉ allocations.map (fun a => compoundKey a.nodeID a.key) then
    { high with revoked := true }
  else high

def highWaterOrder : String ×ₗ String := toLex (high.nodeID, high.key)

/-- The new state: the other scopes' allocations as they were, then the request's. -/
def applyAllocationAuthorization (now : Time) : Except String MembershipState := do
  let highs ← authorizeEach O m project env []
    (m.allocationHighWater.map (revokeOmitted m project env allocations)) allocations
  .ok { m with
    activeAllocations := m.activeAllocations.filter (fun a => !inScope project env a) ++
      allocations.map (fun a => { a with authorizedAt := now })
    allocationHighWater := sortBy highWaterOrder highs }

def authorizeAllocations (m : MembershipState) (now : Time) : Except String Change := do
  let next ← applyAllocationAuthorization O m (trimSpace project) (trimSpace env) allocations now
  .ok ⟨some next, true, .state⟩

end

end PlatformMembership
