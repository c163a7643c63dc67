import Tako.NodeIdentity

/-! # Cluster inventories: validation, publication and signed snapshots

`ClusterInventory.validate` is the gate every stored, signed or accepted inventory passes.
`Valid` states what it guarantees, once; later arguments use its fields only.
-/
namespace NodeIdentity

open List GoPrelude SliceOrder

variable (O : Oracles)

def inventoryAPIVersion : String := "tako.io/v1"
def inventoryKind : String := "ClusterInventory"

def ClusterInventory.node (i : ClusterInventory) (nodeID : String) : Option InventoryNode :=
  i.nodes.find? fun node => equalFold node.nodeID (trimSpace nodeID)

def validateMeshPublicKey (value : String) : Except String Unit :=
  match O.meshKeyBytes (trimSpace value) with
  | none => .error "mesh public key must be base64-encoded 32 bytes"
  | some bytes => do
    require (bytes.length = 32) "mesh public key must be base64-encoded 32 bytes"
    require (bytes.any (· ≠ 0)) "mesh public key cannot be all zeroes"

def meshCredentialID (publicKey : String) : Except String String := do
  validateMeshPublicKey O publicKey
  .ok ("wg-sha256:" ++ O.sha256HexBytes ((O.meshKeyBytes (trimSpace publicKey)).getD []))

def validateRoles (nodeID : String) : List String → List String → Except String Unit
  | _, [] => .ok ()
  | seen, role :: rest => do
    require (role ∈ allowedRoles) s!"cluster inventory node {nodeID} has invalid role {quoted role}"
    require (role ∉ seen) s!"cluster inventory node {nodeID} has duplicated role {quoted role}"
    validateRoles nodeID (role :: seen) rest

/-- The part of `validateInventoryNode` that only authoritative inventories are held to. -/
def validateAuthoritativeNode (node : InventoryNode) : Except String Unit := do
  require (nodeNamePattern node.nodeName)
    s!"cluster inventory node {node.nodeID} has invalid node name"
  require (node.lifecycle.active)
    s!"cluster inventory node {node.nodeID} has invalid lifecycle {quoted node.lifecycle.text}"
  require (node.roles ≠ [] ∧ stringsAreSorted node.roles)
    s!"cluster inventory node {node.nodeID} roles must be non-empty and sorted"
  validateRoles node.nodeID [] node.roles
  require (node.schedulable = decide (node.lifecycle = .schedulable))
    s!"cluster inventory node {node.nodeID} schedulable flag does not match lifecycle"
  require (node.meshCredentialID ≠ "" ∧ node.meshCredentialStatus = .active)
    s!"cluster inventory node {node.nodeID} lacks an active mesh credential"
  wrap (fun cause => s!"cluster inventory node {node.nodeID} mesh public key is invalid: {cause}")
    (validateMeshPublicKey O node.meshPublicKey)
  require (meshCredentialID O node.meshPublicKey = .ok node.meshCredentialID)
    s!"cluster inventory node {node.nodeID} mesh credential ID does not bind its public key"
  require (node.joinedAt ≠ 0 ∧ node.updatedAt ≠ 0 ∧ node.joinedAt ≤ node.updatedAt)
    s!"cluster inventory node {node.nodeID} has invalid lifecycle timestamps"
  whenever (node.sshHost ≠ "") do
    require (1 ≤ node.sshPort ∧ node.sshPort ≤ 65535 ∧ node.sshUser ≠ "" ∧
      node.sshHostKeyType ≠ "" ∧ node.sshHostKey ≠ "" ∧ node.sshHostKeyFingerprint ≠ "")
      s!"cluster inventory node {node.nodeID} has incomplete pinned SSH host identity"
    require (O.validBase64 node.sshHostKey)
      s!"cluster inventory node {node.nodeID} SSH host key is invalid"
    require (O.sshKeyMatches node.sshHostKey node.sshHostKeyType node.sshHostKeyFingerprint)
      s!"cluster inventory node {node.nodeID} SSH host-key fields are inconsistent"

def validateInventoryNode (node : InventoryNode) (meshCIDR : String) (authoritative : Bool) :
    Except String Unit := do
  validateNodeID node.nodeID
  require (O.validPublicKey node.allocationPublicKey)
    s!"cluster inventory node {node.nodeID} allocation key is invalid"
  require (node.meshIP ≠ "" → meshCIDR ≠ "" ∧ O.prefixContains meshCIDR node.meshIP)
    s!"cluster inventory node {node.nodeID} mesh IP is outside the trusted mesh CIDR"
  require (authoritative → node.meshEndpoint ≠ "")
    s!"cluster inventory node {node.nodeID} lacks a platform mesh endpoint"
  whenever (authoritative) (validateAuthoritativeNode O node)

structure SeenNodes where
  (ids names meshIPs meshKeys : List String)

def SeenNodes.add (seen : SeenNodes) (node : InventoryNode) : SeenNodes where
  ids := node.nodeID :: seen.ids
  names := if node.nodeName = "" then seen.names else toLower node.nodeName :: seen.names
  meshIPs := if node.meshIP = "" then seen.meshIPs else node.meshIP :: seen.meshIPs
  meshKeys := if node.meshPublicKey = "" then seen.meshKeys else node.meshPublicKey :: seen.meshKeys

def validateInventoryNodes (meshCIDR : String) (authoritative : Bool) :
    SeenNodes → List InventoryNode → Except String Unit
  | _, [] => .ok ()
  | seen, node :: rest => do
    validateInventoryNode O node meshCIDR authoritative
    require (node.nodeID ∉ seen.ids) s!"cluster inventory node {node.nodeID} is duplicated"
    require (node.nodeName ≠ "" → toLower node.nodeName ∉ seen.names)
      s!"cluster inventory node name {node.nodeName} is duplicated"
    require (node.meshIP ≠ "" → node.meshIP ∉ seen.meshIPs)
      s!"cluster inventory mesh IP {node.meshIP} is duplicated"
    require (node.meshPublicKey ≠ "" → node.meshPublicKey ∉ seen.meshKeys)
      "cluster inventory mesh public key is duplicated"
    validateInventoryNodes meshCIDR authoritative (seen.add node) rest

def validateTombstones (generation : ℕ) : List String → List NodeTombstone → Except String Unit
  | _, [] => .ok ()
  | seen, t :: rest => do
    wrap (fun cause => s!"cluster inventory tombstone node ID is invalid: {cause}")
      (validateNodeID t.nodeID)
    require (t.removedAt ≠ 0 ∧ t.removedGeneration ≠ 0 ∧ t.removedGeneration ≤ generation)
      s!"cluster inventory tombstone {t.nodeID} has invalid removal evidence"
    require (t.nodeID ∉ seen) s!"cluster inventory node {t.nodeID} is both active and tombstoned"
    require (t.revokedMeshCredentialID ≠ "" → t.revokedMeshPublicKey ≠ "")
      s!"cluster inventory tombstone {t.nodeID} lacks revoked mesh-key identity"
    whenever (t.revokedMeshPublicKey ≠ "") do
      wrap (fun _ => s!"cluster inventory tombstone {t.nodeID} has invalid revoked mesh key")
        (validateMeshPublicKey O t.revokedMeshPublicKey)
      require (meshCredentialID O t.revokedMeshPublicKey = .ok t.revokedMeshCredentialID)
        s!"cluster inventory tombstone {t.nodeID} revoked mesh identity is inconsistent"
    validateTombstones generation (t.nodeID :: seen) rest

def validateActiveAllocation (i : ClusterInventory) (a : ActiveAllocation) :
    Except String Unit := do
  require (i.controllerNodeID ≠ "") "active allocations require an authoritative inventory"
  require (a.clusterID = i.clusterID ∧ a.generation ≠ 0 ∧ a.issuedAt ≠ 0 ∧ a.authorizedAt ≠ 0 ∧
    a.signature ≠ "" ∧ a.key ≠ "") s!"active allocation {a.key} has incomplete authority evidence"
  match i.node a.nodeID with
  | none => .error s!"active allocation {a.key} belongs to a non-schedulable node"
  | some node => do
    require (node.meshCredentialStatus = .active ∧ node.lifecycle = .schedulable)
      s!"active allocation {a.key} belongs to a non-schedulable node"
    require (a.hostIP = node.meshIP ∧ 1 ≤ a.hostPort ∧ a.hostPort ≤ 65535 ∧ 1 ≤ a.containerPort ∧
      a.containerPort ≤ 65535 ∧ 1 ≤ a.slot)
      s!"active allocation {a.key} has invalid destination coordinates"

def compoundKey (nodeID key : String) : String := nodeID ++ "\x00" ++ key

theorem compoundKey_inj (ha : '\x00' ∉ a.toList) (hb : '\x00' ∉ b.toList)
    (h : compoundKey a k = compoundKey b l) : a = b ∧ k = l := by
  have hlist : a.toList ++ '\x00' :: k.toList = b.toList ++ '\x00' :: l.toList := by
    have hchars := congrArg String.toList h
    simpa [compoundKey, String.toList_append] using hchars
  obtain ⟨hnode, hkey⟩ := SeparatedWords.append_cons_inj ha hb hlist
  exact ⟨String.toList_inj.mp hnode, String.toList_inj.mp hkey⟩

def ActiveAllocation.portKey (a : ActiveAllocation) : String :=
  a.nodeID ++ "\x00" ++ a.hostIP ++ "\x00" ++ toString a.hostPort

def validateActiveAllocations (i : ClusterInventory) :
    List String → List String → List ActiveAllocation → Except String Unit
  | _, _, [] => .ok ()
  | keys, ports, a :: rest => do
    validateActiveAllocation i a
    require (compoundKey a.nodeID a.key ∉ keys)
      s!"active allocation {a.key} on node {a.nodeID} is duplicated"
    require (a.portKey ∉ ports)
      s!"active allocation host port {a.hostIP}:{a.hostPort} on node {a.nodeID} is duplicated"
    validateActiveAllocations i (compoundKey a.nodeID a.key :: keys) (a.portKey :: ports) rest

/-- `controllerCount == 0` cannot hold once the controller itself has the role. -/
def ClusterInventory.validate (i : ClusterInventory) : Except String Unit := do
  require (i.apiVersion = inventoryAPIVersion ∧ i.kind = inventoryKind)
    "cluster inventory apiVersion/kind is invalid"
  validateClusterID i.clusterID
  whenever (i.controllerNodeID ≠ "") do
    wrap (fun cause => s!"controller node ID is invalid: {cause}")
      (validateNodeID i.controllerNodeID)
    require (i.generation ≠ 0 ∧ i.updatedAt ≠ 0)
      "authoritative cluster inventory requires generation and updatedAt"
  require (i.meshCIDR ≠ "" → O.parsePrefix i.meshCIDR) "cluster inventory mesh CIDR is invalid"
  validateInventoryNodes O i.meshCIDR (decide (i.controllerNodeID ≠ "")) ⟨[], [], [], []⟩ i.nodes
  require (i.controllerNodeID ≠ "" →
    (i.node i.controllerNodeID).any (fun c => decide (roleControlPlane ∈ c.roles)))
    "authoritative controller is not an active control-plane node"
  validateTombstones O i.generation (i.nodes.map (·.nodeID)) i.tombstones
  require (i.activeAllocations ≠ [] → i.allocationGeneration ≠ 0)
    "active allocations require an allocation authority generation"
  validateActiveAllocations i [] [] i.activeAllocations

section

variable (h : validateInventoryNodes O meshCIDR authoritative seen nodes = .ok ())

include h

theorem validateInventoryNodes_ok :
    (∀ node ∈ nodes, validateInventoryNode O node meshCIDR authoritative = .ok ()) ∧
      (nodes.map (·.nodeID)).Nodup ∧ ∀ node ∈ nodes, node.nodeID ∉ seen.ids := by
  induction nodes generalizing seen with
  | nil => simp
  | cons node rest ih =>
    simp only [validateInventoryNodes, bind_eq_ok, require_eq_ok] at h
    obtain ⟨_, hnode, _, hfresh, _, _, _, _, _, _, hrest⟩ := h
    obtain ⟨hall, hunseen⟩ := ih hrest
    exact ⟨forall_mem_cons.mpr ⟨hnode, hall⟩,
      nodup_cons_of_seen hfresh (fun _ => mem_cons.mpr) hunseen⟩

theorem validateInventoryNodes_keys :
    nodes.Pairwise (fun a b => b.meshPublicKey ≠ "" → a.meshPublicKey ≠ b.meshPublicKey) ∧
      ∀ node ∈ nodes, node.meshPublicKey ≠ "" → node.meshPublicKey ∉ seen.meshKeys := by
  induction nodes generalizing seen with
  | nil => simp
  | cons node rest ih =>
    simp only [validateInventoryNodes, bind_eq_ok, require_eq_ok] at h
    obtain ⟨_, _, _, _, _, _, _, _, _, hfresh, hrest⟩ := h
    obtain ⟨hpairs, hseen⟩ := ih hrest
    have hadded : ∀ key, key ∈ seen.meshKeys ∨ key = node.meshPublicKey ∧ key ≠ "" →
        key ∈ (seen.add node).meshKeys := by
      rintro key (hold | ⟨rfl, hne⟩)
      · unfold SeenNodes.add
        split_ifs <;> simp [hold]
      · simp [SeenNodes.add, hne]
    refine ⟨pairwise_cons.mpr ⟨?_, hpairs⟩, ?_⟩
    · intro other hother hne hsame
      exact hseen other hother hne (hadded _ (.inr ⟨hsame.symm, hne⟩))
    · intro other hother hne hmem
      rcases mem_cons.mp hother with rfl | hother
      · exact hfresh hne hmem
      · exact hseen other hother hne (hadded _ (.inl hmem))

end

theorem validateTombstones_ok (h : validateTombstones O generation seen tombstones = .ok ()) :
    (∀ t ∈ tombstones, isUUID t.nodeID) ∧ (tombstones.map (·.nodeID)).Nodup ∧
      ∀ t ∈ tombstones, t.nodeID ∉ seen := by
  induction tombstones generalizing seen with
  | nil => simp
  | cons t rest ih =>
    simp only [validateTombstones, bind_eq_ok, require_eq_ok, wrap_eq_ok] at h
    obtain ⟨_, hid, _, _, _, hfresh, _, _, _, _, hrest⟩ := h
    obtain ⟨huuid, hunseen⟩ := ih hrest
    refine ⟨forall_mem_cons.mpr ⟨?_, huuid⟩,
      nodup_cons_of_seen hfresh (fun _ => mem_cons.mpr) hunseen⟩
    simpa [validateNodeID] using hid

variable {i : ClusterInventory}

theorem validateActiveAllocations_ok
    (h : validateActiveAllocations i seen ports allocations = .ok ()) :
    (∀ a ∈ allocations, validateActiveAllocation i a = .ok ()) ∧
      (allocations.map fun a => compoundKey a.nodeID a.key).Nodup ∧
      ∀ a ∈ allocations, compoundKey a.nodeID a.key ∉ seen := by
  induction allocations generalizing seen ports with
  | nil => simp
  | cons a rest ih =>
    simp only [validateActiveAllocations, bind_eq_ok, require_eq_ok] at h
    obtain ⟨_, ha, _, hfresh, _, _, hrest⟩ := h
    obtain ⟨hall, hunseen⟩ := ih hrest
    exact ⟨forall_mem_cons.mpr ⟨ha, hall⟩,
      nodup_cons_of_seen hfresh (fun _ => mem_cons.mpr) hunseen⟩

structure ClusterInventory.Valid (i : ClusterInventory) : Prop where
  node_check : ∀ node ∈ i.nodes,
    validateInventoryNode O node i.meshCIDR (decide (i.controllerNodeID ≠ "")) = .ok ()
  node_ids : (i.nodes.map (·.nodeID)).Nodup
  controller : i.controllerNodeID ≠ "" → ∃ c, i.node i.controllerNodeID = some c ∧
    roleControlPlane ∈ c.roles
  tombstone_ids : (i.tombstones.map (·.nodeID)).Nodup
  tombstone_inactive : ∀ t ∈ i.tombstones, ∀ node ∈ i.nodes, t.nodeID ≠ node.nodeID
  tombstone_uuid : ∀ t ∈ i.tombstones, isUUID t.nodeID
  allocation_check : ∀ a ∈ i.activeAllocations, validateActiveAllocation i a = .ok ()
  allocation_keys : (i.activeAllocations.map fun a => compoundKey a.nodeID a.key).Nodup
  allocation_generation : i.activeAllocations ≠ [] → i.allocationGeneration ≠ 0

theorem ClusterInventory.validate_valid (h : i.validate O = .ok ()) : i.Valid O := by
  simp only [ClusterInventory.validate, bind_eq_ok, require_eq_ok] at h
  obtain ⟨_, _, _, _, _, _, _, _, _, hnodes, _, hctrl, _, htombs, _, hgen, hallocs⟩ := h
  obtain ⟨hcheck, hids, _⟩ := validateInventoryNodes_ok O hnodes
  obtain ⟨huuid, htids, hinactive⟩ := validateTombstones_ok O htombs
  obtain ⟨hacheck, hakeys, _⟩ := validateActiveAllocations_ok hallocs
  refine ⟨hcheck, hids, ?_, htids, ?_, huuid, hacheck, hakeys, hgen⟩
  · intro hc
    exact exists_of_any (hctrl hc)
  · intro t ht node hn he
    exact hinactive t ht (he ▸ mem_map_of_mem hn)

section

variable (h : i.Valid O) (hc : i.controllerNodeID ≠ "") {node : InventoryNode} (hn : node ∈ i.nodes)

include h hc hn

theorem ClusterInventory.Valid.authoritative :
    isUUID node.nodeID ∧ validateAuthoritativeNode O node = .ok () := by
  have hv := h.node_check node hn
  simp only [validateInventoryNode, bind_eq_ok, require_eq_ok, whenever_eq_ok] at hv
  obtain ⟨_, hid, _, _, _, _, _, _, hauth⟩ := hv
  exact ⟨by simpa [validateNodeID] using hid, hauth (by simp [hc])⟩

theorem ClusterInventory.Valid.schedulable_iff : node.schedulable ↔
    node.lifecycle = .schedulable := by
  have hv := (h.authoritative O hc hn).2
  simp only [validateAuthoritativeNode, bind_eq_ok, require_eq_ok] at hv
  obtain ⟨_, _, _, _, _, _, _, _, _, hs, _⟩ := hv
  simp [hs]

end

theorem ClusterInventory.Valid.allocation_node (h : i.Valid O) (ha : a ∈ i.activeAllocations) :
    ∃ node, i.node a.nodeID = some node ∧ node.lifecycle = .schedulable ∧
      node.meshCredentialStatus = .active ∧ a.hostIP = node.meshIP := by
  have hv := h.allocation_check a ha
  simp only [validateActiveAllocation, bind_eq_ok, require_eq_ok] at hv
  obtain ⟨_, _, _, _, hv⟩ := hv
  split at hv
  · cases hv
  · rename_i node hfind
    simp only [bind_eq_ok, require_eq_ok] at hv
    obtain ⟨_, ⟨hs, hl⟩, hip, _⟩ := hv
    exact ⟨node, hfind, hl, hs, hip⟩

def allocationOrder (a : ActiveAllocation) : String ×ₗ String := toLex (a.nodeID, a.key)

/-- The order in which `marshalInventory` writes the three slices of an inventory. -/
def ClusterInventory.sorted (i : ClusterInventory) : ClusterInventory :=
  { i with
    nodes := (sortBy (·.nodeID) i.nodes).map fun node =>
      { node with roles := sortStrings node.roles }
    tombstones := sortBy (·.nodeID) i.tombstones
    activeAllocations := sortBy allocationOrder i.activeAllocations }

def marshalInventory (i : ClusterInventory) : Except String ClusterInventory := do
  i.sorted.validate O
  .ok i.sorted

def maxInventoryFileSize : ℕ := 8 * 2 ^ 20

/-- The inventory file as `ReadInventory` finds it. The writer has no size limit. -/
def readInventory (file : Option ClusterInventory) : Except String ClusterInventory :=
  match file with
  | none => .error "no such file or directory"
  | some i => do
    require (O.inventoryLen i ≤ maxInventoryFileSize)
      s!"cluster inventory exceeds {maxInventoryFileSize} bytes"
    i.validate O
    .ok i

/-- `ReadInventoryOptional`: only a missing file is no error. `fault` is any other failure
to read the file. -/
def readInventoryOptional (fault : Option String) (file : Option ClusterInventory) :
    Except String (Option ClusterInventory) :=
  match fault, file with
  | some cause, _ => .error cause
  | none, none => .ok none
  | none, some i => do
    let inventory ← readInventory O (some i)
    .ok (some inventory)

def signedInventoryKind : String := "SignedClusterInventory"

section

variable (snapshot : SignedInventorySnapshot)

def signedInventoryEvidence : Evidence := .inventory { snapshot with signature := "" }

def signInventorySnapshot (controller : Installation) : Except String SignedInventorySnapshot := do
  require (snapshot.kind = signedInventoryKind ∧
    snapshot.inventory.clusterID = controller.clusterID ∧
    snapshot.inventory.controllerNodeID = controller.nodeID)
    "inventory snapshot does not match controller identity"
  require (snapshot.issuedAt ≠ 0) "inventory snapshot issue time is required"
  snapshot.inventory.validate O
  let signature ← controller.signAllocation O (signedInventoryEvidence snapshot)
  .ok { snapshot with signature := signature }

def verifyInventorySnapshot (controllerPublicKey : String) (now : Time) : Except String Unit := do
  require (snapshot.kind = signedInventoryKind ∧ snapshot.issuedAt ≠ 0 ∧ snapshot.signature ≠ "")
    "signed inventory snapshot is incomplete"
  require (now ≠ 0 → snapshot.issuedAt ≤ now + minute)
    "signed inventory snapshot was issued in the future"
  snapshot.inventory.validate O
  O.verify controllerPublicKey (signedInventoryEvidence snapshot) snapshot.signature

end

theorem signInventorySnapshot_inventory
    (h : signInventorySnapshot O snapshot controller = .ok signed) :
    signed.inventory = snapshot.inventory := by
  simp only [signInventorySnapshot, bind_eq_ok, Except.ok.injEq] at h
  obtain ⟨_, _, _, _, _, _, _, _, rfl⟩ := h
  rfl

def openOracles : Oracles where
  sha256Hex _ := String.ofList (replicate 64 'a')
  sha256HexBytes _ := "00"
  allocationDigest _ := String.ofList (replicate 64 'd')
  inventoryLen _ := 0
  requestDigest project environment operation who _ _ :=
    project ++ "/" ++ environment ++ "/" ++ operation ++ "/" ++ who
  verify _ _ _ := .ok ()
  sign _ _ := some "signature"
  validPublicKey _ := true
  validPrivateKey _ := true
  keyPairMatches _ _ := true
  meshKeyBytes _ := some (replicate 32 1)
  parsePrefix _ := true
  parseIPv4Prefix _ := true
  prefixContains _ _ := true
  cidrContains _ _ := true
  firstAddress _ := some "10.0.0.1"
  parseIP _ := true
  validBase64 _ := true
  sshKeyMatches _ _ _ := true

def demoClusterID : String := "00000000-0000-4000-8000-00000000000c"
def demoControllerID : String := "00000000-0000-4000-8000-000000000001"

def demoControllerKey : String := "AQEBAQEBAQEBAQEBAQEBAQEBAQEBAQEBAQEBAQEBAQE="

def demoNode (nodeID nodeName meshIP meshPublicKey : String) (roles : List String)
    (lifecycle : Lifecycle) : InventoryNode where
  nodeID := nodeID
  nodeName := nodeName
  lifecycle := lifecycle
  roles := roles
  schedulable := decide (lifecycle = .schedulable)
  meshIP := meshIP
  meshEndpoint := nodeName ++ ":51820"
  meshCredentialID := "wg-sha256:00"
  meshPublicKey := meshPublicKey
  meshCredentialStatus := .active
  sshHost := ""
  sshPort := 0
  sshUser := ""
  sshHostKeyType := ""
  sshHostKey := ""
  sshHostKeyFingerprint := ""
  allocationPublicKey := nodeName ++ "-key"
  joinedAt := 1
  updatedAt := 1

def demoController : InventoryNode :=
  demoNode demoControllerID "controller" "10.0.0.1" demoControllerKey [roleControlPlane, roleWorker]
    .schedulable

def demoInventory : ClusterInventory where
  apiVersion := inventoryAPIVersion
  kind := inventoryKind
  clusterID := demoClusterID
  generation := 1
  allocationGeneration := 0
  controllerNodeID := demoControllerID
  meshCIDR := "10.0.0.0/24"
  updatedAt := 1
  nodes := [demoController]
  tombstones := []
  activeAllocations := []

def demoInstallation : Installation where
  apiVersion := identityAPIVersion
  kind := identityKind
  clusterID := demoClusterID
  nodeID := demoControllerID
  nodeName := "controller"
  createdAt := 1
  allocationPublicKey := "controller-key"
  enrollmentRoles := [roleControlPlane, roleWorker]
  allocationPrivateKey := "controller-secret"

example : demoInventory.validate openOracles = .ok () := by decide +kernel

example : demoInstallation.validate openOracles = .ok () := by decide +kernel

end NodeIdentity
