import Mathlib.Data.List.Range
import Tako.GoMaps
import Tako.OperationLeases

/-! # Mesh addresses

`buildTakodMeshPeers` numbers the servers upwards from the base of the mesh network. Addresses are
32-bit numbers, and what `net.ParseCIDR` makes of a text is a parameter.
-/
namespace MeshAddresses

open List GoPrelude GoMaps

/-- An IPv4 network: the host bits of its base are cleared. -/
structure IPNet where
  (base bits : ℕ)
  base_lt : base < 2 ^ 32
  bits_le : bits ≤ 32
  masked : 2 ^ (32 - bits) ∣ base

def IPNet.size (net : IPNet) : ℕ := 2 ^ (32 - net.bits)

/-- An address of the network other than the first and the last, which name the network and all of
its hosts. -/
def IPNet.Host (net : IPNet) (ip : ℕ) : Prop := net.base < ip ∧ ip + 1 < net.base + net.size
  deriving Decidable

inductive Network where
  | ipv4 (net : IPNet)
  | ipv6

structure MeshConfig where
  enabled : Option Bool := none
  (networkCIDR interface : String := "")
  (listenPort subnetBits : ℤ := 0)
  natTraversal : Bool := false

def isValidRuntimeName (name : String) : Bool :=
  decide (name.utf8ByteSize ≠ 0) && decide (name.utf8ByteSize ≤ 32) &&
    (chars name).all OperationLeases.isNameByte

variable (parseCIDR : String → Except String Network)

/-- The part about the mesh, with the defaults it fills in. -/
def validateRuntimeConfig (mesh : MeshConfig) : Except String MeshConfig := do
  require (mesh.enabled ≠ some false)
    "mesh.enabled=false is not supported; single-node deploys use a one-node mesh"
  let networkCIDR := if mesh.networkCIDR = "" then "10.210.0.0/16" else mesh.networkCIDR
  let _ ← wrap ("mesh.networkCIDR is invalid: " ++ ·) (parseCIDR networkCIDR)
  let interface := if mesh.interface = "" then "tako" else mesh.interface
  require (isValidRuntimeName interface)
    (s!"mesh.interface '{interface}' is invalid: must contain only letters, numbers, hyphens, " ++
      "and underscores")
  let listenPort := if mesh.listenPort = 0 then 51820 else mesh.listenPort
  require (1 ≤ listenPort ∧ listenPort ≤ 65535) "mesh.listenPort must be between 1 and 65535"
  let subnetBits := if mesh.subnetBits = 0 then 24 else mesh.subnetBits
  require (8 ≤ subnetBits ∧ subnetBits ≤ 30) "mesh.subnetBits must be between 8 and 30"
  .ok ⟨some true, networkCIDR, interface, listenPort, subnetBits, true⟩

/-- Printed as the dotted address, a slash and the bits. -/
structure Address where
  ip : ℕ
  bits : ℤ
  deriving DecidableEq

/-- The host, the endpoint and the labels of a peer are those of its server. -/
structure TakodMeshPeer where
  name : String
  address : Address
  publicKey : String
  deriving DecidableEq

section

variable (mesh : MeshConfig)

def meshAddress (index : ℕ) : Except String Address := do
  match ← wrap ("invalid mesh CIDR: " ++ ·) (parseCIDR mesh.networkCIDR) with
  | .ipv6 => .error "mesh.networkCIDR must be IPv4"
  | .ipv4 net => .ok ⟨(net.base + (index + 1) % 2 ^ 32) % 2 ^ 32, mesh.subnetBits⟩

def buildPeersFrom (publicKeys : StringMap) : ℕ → List String → Except String (List TakodMeshPeer)
  | _, [] => .ok []
  | index, serverName :: rest => do
    let address ← meshAddress parseCIDR mesh index
    let publicKey := (publicKeys.lookup serverName).getD ""
    require (publicKey ≠ "") s!"missing WireGuard public key for {serverName}"
    let peers ← buildPeersFrom publicKeys (index + 1) rest
    .ok (⟨serverName, address, publicKey⟩ :: peers)

def buildTakodMeshPeers (servers : List String) (publicKeys : StringMap) :
    Except String (List TakodMeshPeer) :=
  buildPeersFrom parseCIDR mesh publicKeys 0 servers

end

variable {parseCIDR} {mesh : MeshConfig} {net : IPNet}

theorem buildPeersFrom_ips (hnet : parseCIDR mesh.networkCIDR = .ok (.ipv4 net))
    (h : buildPeersFrom parseCIDR mesh publicKeys index servers = .ok peers) :
    peers.map (·.address.ip) = (range' (index + 1) servers.length).map fun k =>
      (net.base + k) % 2 ^ 32 := by
  induction servers generalizing index peers with
  | nil =>
    cases h
    rfl
  | cons serverName rest ih =>
    simp only [buildPeersFrom, meshAddress, hnet, wrap, bind_eq_ok, require_eq_ok,
      Except.ok.injEq] at h
    obtain ⟨address, ⟨network, hnetwork, haddress⟩, _, _, others, hothers, rfl⟩ := h
    cases hnetwork
    cases haddress
    rw [map_cons, ih hothers, length_cons, range'_succ, map_cons, Nat.add_mod_mod]

theorem IPNet.fits (net : IPNet) : net.base + net.size ≤ 2 ^ 32 := by
  obtain ⟨blocks, hbase⟩ := net.masked
  have hall : 2 ^ 32 = 2 ^ (32 - net.bits) * 2 ^ net.bits := by
    rw [← pow_add, Nat.sub_add_cancel net.bits_le]
  have hblocks : blocks < 2 ^ net.bits := by
    refine Nat.lt_of_mul_lt_mul_left (a := 2 ^ (32 - net.bits)) ?_
    rw [← hbase, ← hall]
    exact net.base_lt
  calc net.base + net.size = 2 ^ (32 - net.bits) * (blocks + 1) := by
        rw [IPNet.size, hbase, Nat.mul_succ]
    _ ≤ 2 ^ (32 - net.bits) * 2 ^ net.bits := Nat.mul_le_mul_left _ hblocks
    _ = 2 ^ 32 := hall.symm

/-- The peers have distinct addresses of hosts and the sum does not wrap as long as the network has
an address for every server besides its first and last one, which nothing checks. -/
theorem mesh_addresses_sound_iff (_ : validateRuntimeConfig parseCIDR configured = .ok mesh)
    (hnet : parseCIDR mesh.networkCIDR = .ok (.ipv4 net))
    (hbuild : buildTakodMeshPeers parseCIDR mesh servers publicKeys = .ok peers) :
    ((peers.map (·.address.ip)).Nodup ∧ (∀ peer ∈ peers, net.Host peer.address.ip) ∧
        net.base + servers.length < 2 ^ 32) ↔ servers = [] ∨ servers.length + 2 ≤ net.size := by
  have hips := buildPeersFrom_ips hnet hbuild
  have hhosts : (∀ peer ∈ peers, net.Host peer.address.ip) ↔
      ∀ k ∈ range' 1 servers.length, net.Host ((net.base + k) % 2 ^ 32) := by
    rw [← forall_mem_map, hips, forall_mem_map]
  have hfits := net.fits
  rw [hips, hhosts]
  constructor
  · rintro ⟨-, hall, hwrap⟩
    refine or_iff_not_imp_left.mpr fun hne => ?_
    have hpos := length_pos_of_ne_nil hne
    have hlast := (hall servers.length (mem_range'_1.mpr ⟨hpos, by omega⟩)).2
    omega
  · rintro (rfl | hroom)
    · exact ⟨nodup_nil, by simp, by simpa using net.base_lt⟩
    · have hsame : ∀ k ∈ range' 1 servers.length, (net.base + k) % 2 ^ 32 = net.base + k := by
        intro k hk
        have hle := mem_range'_1.mp hk
        exact Nat.mod_eq_of_lt (by omega)
      refine ⟨?_, ?_, by omega⟩
      · rw [map_congr_left hsame]
        exact Nodup.map (fun _ _ => Nat.add_left_cancel) nodup_range'
      · intro k hk
        have hle := mem_range'_1.mp hk
        exact ⟨by omega, by omega⟩

def defaultNet : IPNet := ⟨10 * 2 ^ 24 + 210 * 2 ^ 16, 16, by decide, by decide, by decide⟩

def smallNet : IPNet := ⟨10 * 2 ^ 24, 30, by decide, by decide, by decide⟩

def demoParse (text : String) : Except String Network :=
  if text = "10.210.0.0/16" then .ok (.ipv4 defaultNet)
  else if text = "10.0.0.0/30" then .ok (.ipv4 smallNet)
  else .error ("invalid CIDR address: " ++ text)

def demoMesh (networkCIDR : String) : MeshConfig :=
  ⟨some true, networkCIDR, "tako", 51820, 24, true⟩

def demoKeys : StringMap := mapOf [("a", "key-a"), ("b", "key-b"), ("c", "key-c")]

theorem two_servers_addressed : ∃ peers,
    buildTakodMeshPeers demoParse (demoMesh "10.210.0.0/16") ["a", "b"] demoKeys = .ok peers ∧
      (peers.map (·.address.ip)).Nodup ∧ ∀ peer ∈ peers, defaultNet.Host peer.address.ip := by
  have hvalid : validateRuntimeConfig demoParse {} = .ok (demoMesh "10.210.0.0/16") := rfl
  have hsome : (buildTakodMeshPeers demoParse (demoMesh "10.210.0.0/16")
      ["a", "b"] demoKeys).toOption.isSome := by
    decide +kernel
  obtain ⟨peers, hbuild⟩ := exists_ok hsome
  obtain ⟨hnodup, hhosts, -⟩ := (mesh_addresses_sound_iff hvalid rfl hbuild).mpr (.inr (by decide))
  exact ⟨peers, hbuild, hnodup, hhosts⟩

/-- The third of three servers gets the broadcast address of a network for two. -/
theorem third_server_broadcast :
    validateRuntimeConfig demoParse { networkCIDR := "10.0.0.0/30" } =
      .ok (demoMesh "10.0.0.0/30") ∧
      ((buildTakodMeshPeers demoParse (demoMesh "10.0.0.0/30")
        ["a", "b", "c"] demoKeys).toOption.any fun peers =>
        peers.any fun peer => peer.address.ip == smallNet.base + 3) ∧
          ¬ smallNet.Host (smallNet.base + 3) :=
  ⟨rfl, by decide +kernel, by decide⟩

end MeshAddresses
