import Mathlib.Data.Prod.Lex
import Tako.GoPrelude
import Tako.SliceOrder

/-! # Node identity, operation fences and cluster inventories

The values of `pkg/nodeidentity` that the control plane signs, verifies and publishes,
with their validation. Digests, signatures and the address and key parsers of the
libraries are fields of `Oracles`, so every result holds for any behaviour of them.
Values are modelled after decoding: encoding and decoding a value gives it back.
-/
namespace NodeIdentity

open GoPrelude SliceOrder

def roleControlPlane : String := "control-plane"
def roleWorker : String := "worker"

def allowedRoles : List String := [roleControlPlane, roleWorker, "edge", "builder"]

structure Installation where
  (apiVersion kind clusterID nodeID nodeName : String)
  createdAt : Time
  allocationPublicKey : String
  enrollmentRoles : List String
  allocationPrivateKey : String
  deriving DecidableEq

def isHexDigit (c : Char) : Bool := isDigit c || ('a' ≤ c && c ≤ 'f')

/-- The UUID pattern on `strings.ToLower(strings.TrimSpace(value))`, character by character. -/
def isUUID (value : String) : Bool :=
  let text := (trimChars (chars value)).map Char.toLower
  text.length == 36 &&
    text.zipIdx.all fun (c, index) =>
      if index == 8 || index == 13 || index == 18 || index == 23 then c == '-' else isHexDigit c

theorem isUUID_no_nul (h : isUUID value) : '\x00' ∉ value.toList := by
  intro hmem
  have hlower : '\x00' ∈ (trimChars (chars value)).map Char.toLower := by
    rw [chars_eq_toList]
    exact nul_mem_trimLower hmem
  simp only [isUUID, Bool.and_eq_true, List.all_eq_true] at h
  obtain ⟨index, hindex, hget⟩ := List.mem_iff_getElem.mp hlower
  have hpair := List.mk_mem_zipIdx_iff_getElem?.mpr (List.getElem?_eq_some_iff.mpr ⟨hindex, hget⟩)
  have hchar := h.2 _ hpair
  split_ifs at hchar
  · cases hchar
  · cases hchar

section

variable (value : String)

def validateClusterID : Except String Unit :=
  if isUUID value then .ok () else .error "clusterId must be a UUID"

def validateNodeID : Except String Unit :=
  if isUUID value then .ok () else .error "nodeId must be a UUID"

/-- The pattern `^[A-Za-z0-9][A-Za-z0-9._-]{0,62}$` of node names. -/
def nodeNamePattern : Bool :=
  match chars value with
  | [] => false
  | c :: rest =>
    (isLowerLetter c || isUpperLetter c || isDigit c) && decide (rest.length ≤ 62) &&
      rest.all fun d => isLowerLetter d || isUpperLetter d || isDigit d || d == '.' || d == '_' ||
        d == '-'

/-- The `%q` form of a text. -/
def quoted : String :=
  "\"" ++ String.ofList ((chars value).flatMap fun c => if c == '"' || c == '\\' then ['\\', c]
    else [c]) ++ "\""

end

structure OperationFence where
  (kind clusterID controllerNodeID : String)
  membershipGeneration : ℕ
  (project environment operationID operation : String)
  token : ℕ
  holderTokenHash : String
  targetNodeIDs : List String
  (issuedAt expiresAt : Time)
  signature : String
  deriving DecidableEq

inductive Lifecycle where
  | joining
  | ready
  | schedulable
  | cordoned
  | draining
  | other (text : String)
  deriving DecidableEq

def Lifecycle.text : Lifecycle → String
  | .joining => "joining"
  | .ready => "ready"
  | .schedulable => "schedulable"
  | .cordoned => "cordoned"
  | .draining => "draining"
  | .other text => text

def Lifecycle.active : Lifecycle → Bool
  | .other _ => false
  | _ => true

inductive CredentialStatus where
  | active
  | revoked
  | other (text : String)
  deriving DecidableEq

structure InventoryNode where
  (nodeID nodeName : String)
  lifecycle : Lifecycle
  roles : List String
  schedulable : Bool
  (meshIP meshEndpoint meshCredentialID meshPublicKey : String)
  meshCredentialStatus : CredentialStatus
  sshHost : String
  sshPort : ℤ
  (sshUser sshHostKeyType sshHostKey sshHostKeyFingerprint allocationPublicKey : String)
  (joinedAt updatedAt : Time)
  deriving DecidableEq

structure NodeTombstone where
  (nodeID nodeName : String)
  removedAt : Time
  removedGeneration : ℕ
  (revokedMeshCredentialID revokedMeshPublicKey allocationKeyFingerprint : String)
  deriving DecidableEq

structure ActiveAllocation where
  (kind project environment service revision : String)
  slot : ℤ
  hostIP : String
  (hostPort containerPort : ℤ)
  (key clusterID nodeID : String)
  generation : ℕ
  issuedAt : Time
  operationID : String
  fenceToken : ℕ
  signature : String
  authorizedAt : Time
  deriving DecidableEq

structure ClusterInventory where
  (apiVersion kind clusterID : String)
  (generation allocationGeneration : ℕ)
  (controllerNodeID meshCIDR : String)
  updatedAt : Time
  nodes : List InventoryNode
  tombstones : List NodeTombstone
  activeAllocations : List ActiveAllocation
  deriving DecidableEq

structure SignedInventorySnapshot where
  kind : String
  inventory : ClusterInventory
  issuedAt : Time
  signature : String
  deriving DecidableEq

/-- What a signature covers; the signature field itself is blank in each of them. -/
inductive Evidence where
  | fence (fence : OperationFence)
  | inventory (snapshot : SignedInventorySnapshot)
  | allocation (allocation : ActiveAllocation)
  deriving DecidableEq

/-- Library behaviour the model does not fix. `meshKeyBytes` decodes a WireGuard key, `inventoryLen`
is the length of the encoded file, `prefixContains cidr ip` is the masked `netip` prefix test,
`cidrContains` the one of `net`, `firstAddress` the address after the masked one if the prefix
contains it, and `sshKeyMatches key type fingerprint` parses a pinned host key. -/
structure Oracles where
  sha256Hex : String → String
  sha256HexBytes : List UInt8 → String
  allocationDigest : ActiveAllocation → String
  inventoryLen : ClusterInventory → ℕ
  requestDigest : String → String → String → String → ℤ → List String → String
  verify : String → Evidence → String → Except String Unit
  sign : String → Evidence → Option String
  (validPublicKey validPrivateKey : String → Bool)
  keyPairMatches : String → String → Bool
  meshKeyBytes : String → Option (List UInt8)
  (parsePrefix parseIPv4Prefix : String → Bool)
  (prefixContains cidrContains : String → String → Bool)
  firstAddress : String → Option String
  (parseIP validBase64 : String → Bool)
  sshKeyMatches : String → String → String → Bool

variable (O : Oracles)

section

variable (fence : OperationFence) (f : OperationFence) (installation : Installation) (now : Time)

def Installation.signAllocation (message : Evidence) : Except String String :=
  match O.sign installation.allocationPrivateKey message with
  | some signature => .ok signature
  | none => .error "allocation signing key is unavailable"

def identityAPIVersion : String := "tako.io/v1"
def identityKind : String := "InstallationIdentity"

def validateEnrollmentRoles : List String → List String → Except String Unit
  | _, [] => .ok ()
  | seen, role :: rest => do
    require (role = trimSpace role)
      s!"identity role {quoted role} must not contain surrounding whitespace"
    require (role ∈ allowedRoles) s!"identity role {quoted role} is unsupported"
    require (role ∉ seen) s!"identity role {quoted role} is duplicated"
    require (seen.head?.all (fun earlier => decide (earlier ≤ role)))
      "identity roles must be sorted"
    validateEnrollmentRoles (role :: seen) rest

def Installation.validate (i : Installation) : Except String Unit := do
  require (i.apiVersion = identityAPIVersion)
    s!"identity apiVersion must be {quoted identityAPIVersion}"
  require (i.kind = identityKind) s!"identity kind must be {quoted identityKind}"
  require (isUUID i.clusterID) "identity clusterId must be a UUID"
  require (isUUID i.nodeID) "identity nodeId must be a UUID"
  require (nodeNamePattern i.nodeName) (s!"identity nodeName {quoted i.nodeName} must start " ++
    "with a letter or digit and contain at most 63 letters, digits, dots, underscores, or hyphens")
  require (i.createdAt ≠ 0) "identity createdAt is required"
  require (i.enrollmentRoles ≠ []) "identity must declare at least one node role"
  require (i.allocationPublicKey = "" ↔ i.allocationPrivateKey = "")
    "allocation signing public and private keys must both be present"
  whenever (i.allocationPublicKey ≠ "") do
    require (O.validPublicKey i.allocationPublicKey) "allocation public key is invalid"
    require (O.validPrivateKey i.allocationPrivateKey) "allocation private key is invalid"
    require (O.keyPairMatches i.allocationPublicKey i.allocationPrivateKey)
      "allocation signing key pair does not match"
  validateEnrollmentRoles [] i.enrollmentRoles

def operationFenceKind : String := "ControllerOperationFence"

def validateFenceTargetIDs : List String → List String → Except String Unit
  | _, [] => .ok ()
  | seen, nodeID :: rest => do
    wrap (fun cause => s!"operation fence target identity is invalid: {cause}")
      (validateNodeID nodeID)
    require (nodeID ∉ seen) s!"operation fence target {nodeID} is duplicated"
    validateFenceTargetIDs (nodeID :: seen) rest

/-- The zero time asks for no expiry check, as cleanup paths do. -/
def OperationFence.validate : Except String Unit := do
  require (f.kind = operationFenceKind) "operation fence kind is invalid"
  validateClusterID f.clusterID
  wrap (fun cause => s!"operation fence controller identity is invalid: {cause}")
    (validateNodeID f.controllerNodeID)
  require (f.membershipGeneration ≠ 0 ∧ f.token ≠ 0)
    "operation fence generation and token are required"
  require (f.holderTokenHash.utf8ByteSize = 64) "operation fence holder credential hash is invalid"
  require ((chars f.holderTokenHash).all isHexDigit)
    "operation fence holder credential hash is invalid"
  require (trimSpace f.project ≠ "" ∧ trimSpace f.environment ≠ "" ∧
    trimSpace f.operationID ≠ "" ∧ trimSpace f.operation ≠ "") "operation fence scope is incomplete"
  require (f.issuedAt ≠ 0 ∧ f.expiresAt ≠ 0 ∧ f.issuedAt < f.expiresAt)
    "operation fence validity window is invalid"
  require (f.expiresAt - f.issuedAt ≤ 24 * hour) "operation fence validity exceeds 24h"
  require (now ≠ 0 → f.issuedAt ≤ now + minute) "operation fence was issued in the future"
  require (now ≠ 0 → now < f.expiresAt) "operation fence has expired"
  require (f.targetNodeIDs ≠ [] ∧ stringsAreSorted f.targetNodeIDs)
    "operation fence targets must be non-empty and sorted"
  validateFenceTargetIDs [] f.targetNodeIDs
  require (trimSpace f.signature ≠ "") "operation fence signature is required"

def operationHolderTokenHash (holderToken : String) : Except String String :=
  if trimSpace holderToken = "" ∨ holderToken.utf8ByteSize > 256 then
    .error "operation holder credential is invalid"
  else .ok (O.sha256Hex holderToken)

def OperationFence.targets (nodeID : String) : Bool :=
  let wanted := toLower (trimSpace nodeID)
  f.targetNodeIDs[searchStrings f.targetNodeIDs wanted]? == some wanted

def operationFenceEvidence : Evidence := .fence { f with signature := "" }

def signOperationFence : Except String OperationFence := do
  require (fence.clusterID = installation.clusterID ∧ fence.controllerNodeID = installation.nodeID)
    "operation fence does not match controller identity"
  { fence with signature := "pending" }.validate 0
  let signature ← installation.signAllocation O (operationFenceEvidence fence)
  .ok { fence with signature := signature }

def verifyOperationFence (controllerPublicKey : String) (now : Time) : Except String Unit := do
  fence.validate now
  O.verify controllerPublicKey (operationFenceEvidence fence) fence.signature

end

theorem signOperationFence_eq (h : signOperationFence O fence installation = .ok signed) :
    signed = { fence with signature := signed.signature } := by
  simp only [signOperationFence, bind_eq_ok, Except.ok.injEq] at h
  obtain ⟨_, _, _, _, signature, _, rfl⟩ := h
  rfl

end NodeIdentity
