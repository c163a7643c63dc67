import Mathlib.Data.List.Infix
import Tako.NodeReconcile
import Tako.Runs

/-! # The registry of host ports

The grants are kept in one file. A call may fail at any point, and a failed replacement of the file
may still have taken place. The generation of a grant is a `uint64` counter of the file.
-/
namespace PortRegistry

open List GoPrelude GoMaps Runs
open OperationLeases (isSafeProjectName isSafeRuntimeName isNameByte)
open NodeReconcile (isSafeServiceName)

def portAllocationKindMeshUpstream : String := "mesh-upstream"

def portAllocationSchemaVersion : ℤ := 2

structure PortAllocationRequest where
  kind : String := ""
  (project environment service : String)
  revision : String := ""
  slot : ℤ
  hostIP : String
  (containerPort preferredPort minPort maxPort : ℤ)

structure PortAllocationEntry where
  (kind project environment service revision : String)
  slot : ℤ
  hostIP : String
  (hostPort containerPort : ℤ)
  generation : ℕ
  (issuedAt updatedAt : Time)
  deriving DecidableEq

structure PortAllocationRegistry where
  schemaVersion : ℤ := portAllocationSchemaVersion
  allocations : GoMap PortAllocationEntry := ∅
  nextGeneration : ℕ := 0
  updatedAt : Time := 0

structure PortAllocationResponse where
  (kind project environment service revision : String)
  slot : ℤ
  hostIP : String
  (hostPort containerPort : ℤ)
  key : String
  generation : ℕ
  issuedAt : Time
  deriving DecidableEq

structure DockerHostPortUse where
  (project environment service revision : String := "")
  deriving DecidableEq

abbrev HostPorts : Type := ℤ → List DockerHostPortUse

/-- A replacement of the file that failed, possibly after it took place. -/
structure WriteFault where
  cause : String
  replaced : Bool

/-- What one call meets: a context that is done, an unreadable file, the answer of Docker, the
time, and a failing write. -/
structure Call where
  (context read : Option String := none)
  docker : Except String HostPorts := .ok fun _ => []
  now : Time := 0
  write : Option WriteFault := none

def portAllocationKey (kind project env service revision : String) (slot : ℤ) : String :=
  if revision ≠ "" then s!"{kind}/{project}/{env}/{service}/{revision}/{slot}"
  else s!"{kind}/{project}/{env}/{service}/{slot}"

section

variable (now : Time) (registry : PortAllocationRegistry) (req : PortAllocationRequest)
  (call : Call)

def PortAllocationRequest.key : String :=
  portAllocationKey req.kind req.project req.environment req.service req.revision req.slot

def PortAllocationRequest.withKind : PortAllocationRequest :=
  if req.kind = "" then { req with kind := portAllocationKindMeshUpstream } else req

def checkPort (label : String) (port : ℤ) : Except String Unit :=
  require (¬ (port < 1 ∨ 65535 < port)) s!"{label} must be between 1 and 65535"

/-- `parsesIP` is whether `net.ParseIP` accepts a text. The four ports are checked in the order of a
Go map, so which of several bad ports is named is not determined. -/
def validatePortAllocationRequest (parsesIP : String → Bool) (req : PortAllocationRequest) :
    Except String Unit := do
  require (req.kind = portAllocationKindMeshUpstream) "invalid port allocation kind"
  require (isSafeProjectName req.project) "invalid project name"
  require (isSafeRuntimeName req.environment) "invalid environment name"
  require (isSafeServiceName req.service) "invalid service name"
  require (¬ (req.revision ≠ "" ∧ isSafeRuntimeName req.revision = false)) "invalid revision"
  require (¬ (req.slot ≤ 0 ∨ 10000 < req.slot)) "slot must be between 1 and 10000"
  require (¬ (req.hostIP = "" ∨ parsesIP req.hostIP = false)) "invalid host IP"
  checkPort "containerPort" req.containerPort
  checkPort "preferredPort" req.preferredPort
  checkPort "minPort" req.minPort
  checkPort "maxPort" req.maxPort
  require (req.minPort ≤ req.maxPort) "minPort must be <= maxPort"
  require (¬ (req.preferredPort < req.minPort ∨ req.maxPort < req.preferredPort))
    "preferredPort must be within minPort and maxPort"

/-- An entry of a registry from before generations gets one; the counter never falls behind. -/
def upgradeEntry (key : String) : PortAllocationRegistry :=
  match registry.allocations.lookup key with
  | none => registry
  | some entry =>
    if entry.generation = 0 then
      let generation := uint64Succ registry.nextGeneration
      let issuedAt := if entry.updatedAt = 0 then now else entry.updatedAt
      { registry with
        nextGeneration := generation
        allocations := registry.allocations.insert key
          { entry with generation := generation, issuedAt := issuedAt } }
    else if registry.nextGeneration < entry.generation then
      { registry with nextGeneration := entry.generation }
    else registry

def upgrade : PortAllocationRegistry :=
  (sortStrings registry.allocations.keys).foldl (upgradeEntry now) registry

def readPortAllocationRegistry (file : Option PortAllocationRegistry) :
    Except String PortAllocationRegistry :=
  match call.read, file with
  | some cause, _ => .error s!"failed to read port allocation registry: {cause}"
  | none, none => .ok {}
  | none, some registry => .ok (upgrade call.now registry)

/-- `ctx.Err()`. -/
def checkContext : Except String Unit :=
  match call.context with
  | some cause => .error cause
  | none => .ok ()

def portsBetween (start stop : ℤ) : List ℤ :=
  (range (stop - start).toNat).map fun index : ℕ => start + index

def candidatePorts (preferred minPort maxPort : ℤ) : List ℤ :=
  portsBetween preferred (maxPort + 1) ++ portsBetween minPort preferred

def hostPortUsedByOtherService (uses : List DockerHostPortUse) (req : PortAllocationRequest) :
    Bool :=
  uses.any fun use =>
    !(use.project == req.project && use.environment == req.environment &&
      use.service == req.service && (req.revision == "" || use.revision == req.revision))

def reserved (usedPorts : HostPorts) (req : PortAllocationRequest) (key : String) (port : ℤ) :
    Bool :=
  hostPortUsedByOtherService (usedPorts port) req ||
    registry.allocations.entries.any fun entry =>
      entry.1 != key && decide (0 < entry.2.hostPort) && entry.2.hostPort == port

def noFreePorts : String := s!"no free host ports available in range {req.minPort}-{req.maxPort}"

def chooseAllocatedPort (isReserved : ℤ → Bool) : Except String ℤ :=
  match (candidatePorts req.preferredPort req.minPort req.maxPort).find? fun port =>
    !isReserved port with
  | some port => .ok port
  | none => .error (noFreePorts req)

end

section

variable (registry : PortAllocationRegistry)

section

variable (usedPorts : HostPorts) (req : PortAllocationRequest) (key : String) (now : Time)

def renewable : Option PortAllocationEntry :=
  (registry.allocations.lookup key).filter fun existing =>
    existing.containerPort == req.containerPort && existing.hostIP == req.hostIP &&
      !hostPortUsedByOtherService (usedPorts existing.hostPort) req

def renew (existing : PortAllocationEntry) (now : Time) :
    PortAllocationRegistry × PortAllocationEntry :=
  let generation := uint64Succ registry.nextGeneration
  let entry := { existing with generation := generation, issuedAt := now, updatedAt := now }
  ({ registry with
     nextGeneration := generation, allocations := registry.allocations.insert key entry,
     updatedAt := now }, entry)

def issue (req : PortAllocationRequest) (hostPort : ℤ) (now : Time) :
    PortAllocationRegistry × PortAllocationEntry :=
  let generation := uint64Succ registry.nextGeneration
  let entry : PortAllocationEntry :=
    { kind := req.kind, project := req.project, environment := req.environment,
      service := req.service,
      revision := req.revision, slot := req.slot, hostIP := req.hostIP, hostPort := hostPort,
      containerPort := req.containerPort, generation := generation, issuedAt := now,
      updatedAt := now }
  ({ schemaVersion := portAllocationSchemaVersion, nextGeneration := generation,
     allocations := registry.allocations.insert key entry, updatedAt := now }, entry)

def assign : Except String (PortAllocationRegistry × PortAllocationEntry) :=
  match renewable registry usedPorts req req.key with
  | some existing => .ok (renew registry req.key existing now)
  | none => do
    let hostPort ← chooseAllocatedPort req (reserved registry usedPorts req req.key)
    .ok (issue registry req.key req hostPort now)

end

end

section Agent

variable (parsesIP : String → Bool)

section

variable (call : Call) (request : PortAllocationRequest) (file : Option PortAllocationRegistry)

/-- What `AllocatePort` does before it writes. -/
def grant : Except String (PortAllocationRegistry × PortAllocationEntry) := do
  let req := request.withKind
  validatePortAllocationRequest parsesIP req
  checkContext call
  let registry ← readPortAllocationRegistry call file
  let usedPorts ← call.docker
  assign registry usedPorts req call.now

def portAllocationResponse (key : String) (entry : PortAllocationEntry) : PortAllocationResponse :=
  { kind := entry.kind, project := entry.project, environment := entry.environment,
    service := entry.service,
    revision := entry.revision, slot := entry.slot, hostIP := entry.hostIP,
    hostPort := entry.hostPort,
    containerPort := entry.containerPort, key := key, generation := entry.generation,
    issuedAt := entry.issuedAt }

/-- The file after a replacement by `registry`, and whether it was reported. -/
def writePortAllocationRegistry
    (registry : PortAllocationRegistry) : Except String Unit × Option PortAllocationRegistry :=
  match call.write with
  | none => (.ok (), some registry)
  | some fault =>
    (.error s!"failed to write port allocation registry: {fault.cause}", if fault.replaced then
      some registry else file)

def allocatePort : Except String PortAllocationResponse × Option PortAllocationRegistry :=
  match grant parsesIP call request file with
  | .error cause => (.error cause, file)
  | .ok (registry, entry) =>
    let written := writePortAllocationRegistry call file registry
    (written.1.map fun _ => portAllocationResponse request.withKind.key entry, written.2)

/-- The file without the entries that match; it is not written if there are none. -/
def releaseMatching (isReleased : PortAllocationEntry → Bool)
    (file : Option PortAllocationRegistry) : Except String Unit × Option PortAllocationRegistry :=
  match checkContext call >>= fun _ => readPortAllocationRegistry call file with
  | .error cause => (.error cause, file)
  | .ok registry =>
    if registry.allocations.entries.any fun entry => isReleased entry.2 then
      writePortAllocationRegistry call file
        { registry with
          allocations := keepWhere registry.allocations fun _ entry => !isReleased entry
          updatedAt := call.now }
    else (.ok (), file)

def releaseServicePortAllocations (project env service keepRevision : String)
    (file : Option PortAllocationRegistry) : Except String Unit × Option PortAllocationRegistry :=
  let checked : Except String Unit := do
    require (isSafeProjectName project) "invalid project name"
    require (isSafeRuntimeName env) "invalid environment name"
    require (isSafeServiceName service) "invalid service name"
    require (¬ (keepRevision ≠ "" ∧ isSafeRuntimeName keepRevision = false)) "invalid keep revision"
  match checked with
  | .error cause => (.error cause, file)
  | .ok _ =>
    releaseMatching call (fun entry =>
      entry.project == project && entry.environment == env && entry.service == service &&
        !(keepRevision != "" && entry.revision == keepRevision)) file

def releaseProjectPortAllocations (project env : String)
    (file : Option PortAllocationRegistry) : Except String Unit × Option PortAllocationRegistry :=
  let checked : Except String Unit := do
    require (isSafeProjectName project) "invalid project name"
    require (¬ (env ≠ "" ∧ isSafeRuntimeName env = false)) "invalid environment name"
  match checked with
  | .error cause => (.error cause, file)
  | .ok _ =>
    releaseMatching call (fun entry =>
      entry.project == project && (env == "" || entry.environment == env)) file

/-- The file, and the generations granted so far: those of every grant that reached the file. -/
structure State where
  file : Option PortAllocationRegistry := none
  granted : List ℕ := []

inductive Event where
  | allocate (call : Call) (request : PortAllocationRequest)
  | releaseService (call : Call) (project env service keepRevision : String)
  | releaseProject (call : Call) (project env : String)

def Call.persists : Bool :=
  match call.write with
  | none => true
  | some fault => fault.replaced

end

def State.next (s : State) : Event → State
  | .allocate call request =>
    { file := (allocatePort parsesIP call request s.file).2
      granted :=
        match grant parsesIP call request s.file with
        | .ok (_, entry) => if call.persists then s.granted ++ [entry.generation] else s.granted
        | .error _ => s.granted }
  | .releaseService call project env service keepRevision =>
    { s with
      file := (releaseServicePortAllocations call project env service keepRevision s.file).2 }
  | .releaseProject call project env =>
    { s with file := (releaseProjectPortAllocations call project env s.file).2 }

def machine : Machine State Event where
  Enabled _ _ := True
  next := State.next parsesIP

def Empty (s : State) : Prop := s = {}

end Agent

theorem mem_portsBetween : port ∈ portsBetween start stop ↔ start ≤ port ∧ port < stop := by
  simp only [portsBetween, mem_map, mem_range]
  constructor
  · rintro ⟨index, hindex, rfl⟩
    omega
  · rintro ⟨hlow, hhigh⟩
    exact ⟨(port - start).toNat, by omega, by omega⟩

theorem portsBetween_nodup : (portsBetween start stop).Nodup := by
  refine List.Nodup.map ?_ nodup_range
  intro i j hij
  dsimp only at hij
  omega

theorem portsBetween_head (h : start < stop) : (portsBetween start stop).head? = some start := by
  obtain ⟨count, hcount⟩ : ∃ count, (stop - start).toNat = count + 1 :=
    ⟨(stop - start).toNat - 1, by omega⟩
  rw [portsBetween, hcount, range_succ_eq_map]
  simp

/-- The candidates are the ports of the range, each once, beginning with the preferred one. -/
structure Enumerates (ports : List ℤ) (preferred minPort maxPort : ℤ) : Prop where
  first : ports.head? = some preferred
  once : ports.Nodup
  all : ∀ port, port ∈ ports ↔ minPort ≤ port ∧ port ≤ maxPort

theorem candidatePorts_enumerates (hmin : minPort ≤ preferred) (hmax : preferred ≤ maxPort) :
    Enumerates (candidatePorts preferred minPort maxPort) preferred minPort maxPort where
  first := by
    have hhead : (portsBetween preferred (maxPort + 1)).head? = some preferred :=
      portsBetween_head (by omega)
    rw [candidatePorts, head?_append, hhead]
    rfl
  once := by
    refine nodup_append.mpr ⟨portsBetween_nodup, portsBetween_nodup, ?_⟩
    intro a ha b hb hab
    rw [mem_portsBetween] at ha hb
    omega
  all port := by
    rw [candidatePorts, mem_append, mem_portsBetween, mem_portsBetween]
    omega

structure Identity where
  (kind project environment service revision : String)
  slot : ℤ
  deriving DecidableEq

def PortAllocationRequest.identity (req : PortAllocationRequest) : Identity :=
  ⟨req.kind, req.project, req.environment, req.service, req.revision, req.slot⟩

def PortAllocationEntry.identity (entry : PortAllocationEntry) : Identity :=
  ⟨entry.kind, entry.project, entry.environment, entry.service, entry.revision, entry.slot⟩

namespace Identity

def key (i : Identity) : String :=
  portAllocationKey i.kind i.project i.environment i.service i.revision i.slot

def words (i : Identity) : List (List Char) :=
  [i.kind.toList, i.project.toList, i.environment.toList, i.service.toList] ++
    (if i.revision = "" then [] else [i.revision.toList]) ++ [(toString i.slot).toList]

structure Safe (i : Identity) : Prop where
  kind : '/' ∉ i.kind.toList
  project : '/' ∉ i.project.toList
  environment : '/' ∉ i.environment.toList
  service : '/' ∉ i.service.toList
  revision : '/' ∉ i.revision.toList
  slot : 1 ≤ i.slot

theorem key_toList (i : Identity) : i.key.toList = ['/'].intercalate i.words := by
  have htext : ∀ text : String, toString text = text := fun _ => rfl
  unfold key portAllocationKey words
  by_cases hrev : i.revision = ""
  · simp [hrev, htext, intercalate, intersperse]
  · simp [hrev, htext, intercalate, intersperse]

variable {slot : ℤ} {i : Identity}

theorem slot_toList (h : 1 ≤ slot) : (toString slot).toList = Nat.toDigits 10 slot.toNat := by
  obtain ⟨n, rfl⟩ := Int.eq_ofNat_of_zero_le (by omega : 0 ≤ slot)
  change (Nat.repr n).toList = _
  rw [Nat.repr_eq_ofList_toDigits, String.toList_ofList, Int.toNat_natCast]

theorem slot_inj (hslot : 1 ≤ slot) (hother : 1 ≤ other) (h : toString slot = toString other) :
    slot = other := by
  have hdigits : Nat.toDigits 10 slot.toNat = Nat.toDigits 10 other.toNat := by
    rw [← slot_toList hslot, ← slot_toList hother, h]
  have hnumber := congrArg (fun digits => Nat.ofDigitChars 10 digits 0) hdigits
  simp only [Nat.ofDigitChars_ten_toDigits] at hnumber
  omega

theorem slash_not_mem_slot (h : 1 ≤ slot) : '/' ∉ (toString slot).toList := by
  intro hmem
  rw [slot_toList h] at hmem
  exact absurd (Nat.isDigit_of_mem_toDigits (by decide) (by decide) hmem) (by decide)

theorem Safe.words_slash (h : i.Safe) : ∀ w ∈ i.words, '/' ∉ w := by
  intro w hw
  simp only [words, mem_append, mem_cons, not_mem_nil, or_false] at hw
  rcases hw with ((rfl | rfl | rfl | rfl) | hrev) | rfl
  · exact h.kind
  · exact h.project
  · exact h.environment
  · exact h.service
  · split_ifs at hrev
    · cases hrev
    · rw [mem_singleton.mp hrev]
      exact h.revision
  · exact slash_not_mem_slot h.slot

theorem Safe.eq_of_key (hi : i.Safe) (hj : j.Safe) (h : i.key = j.key) : i = j := by
  have hwords : i.words = j.words := by
    have hlists := congrArg String.toList h
    rw [key_toList, key_toList] at hlists
    have hleft := splitOn_intercalate '/' hi.words_slash (by simp [words])
    have hright := splitOn_intercalate '/' hj.words_slash (by simp [words])
    rw [← hleft, ← hright, hlists]
  obtain ⟨ikind, iproject, ienvironment, iservice, irevision, islot⟩ := i
  obtain ⟨jkind, jproject, jenvironment, jservice, jrevision, jslot⟩ := j
  have hslot : toString islot = toString jslot → islot = jslot := slot_inj hi.slot hj.slot
  by_cases hleft : irevision = ""
  · by_cases hright : jrevision = ""
    · simp only [words, hleft, hright, if_true, append_nil, cons_append, nil_append, cons.injEq,
        String.toList_inj, and_true] at hwords
      obtain ⟨rfl, rfl, rfl, rfl, hnumber⟩ := hwords
      rw [hleft, hright, hslot hnumber]
    · simp [words, hleft, hright] at hwords
  · by_cases hright : jrevision = ""
    · simp [words, hleft, hright] at hwords
    · simp only [words, hleft, hright, if_false, cons_append, nil_append, cons.injEq,
        String.toList_inj, and_true] at hwords
      obtain ⟨rfl, rfl, rfl, rfl, rfl, hnumber⟩ := hwords
      rw [hslot hnumber]

end Identity

theorem slash_not_mem_of_all (h : (chars name).all p) (hp : p '/' = false) : '/' ∉ name.toList := by
  intro hmem
  rw [chars_eq_toList] at h
  have hslash := all_eq_true.mp h '/' hmem
  rw [hp] at hslash
  cases hslash

theorem runtimeName_slash (h : isSafeRuntimeName name) : '/' ∉ name.toList := by
  unfold isSafeRuntimeName at h
  simp only [Bool.and_eq_true] at h
  exact slash_not_mem_of_all h.2 (by decide)

theorem projectName_slash (h : isSafeProjectName name) : '/' ∉ name.toList := by
  unfold isSafeProjectName at h
  split at h
  · simp only [Bool.and_eq_true] at h
    exact slash_not_mem_of_all h.2 (by decide)
  · cases h

theorem serviceName_slash (h : isSafeServiceName name) : '/' ∉ name.toList := by
  unfold isSafeServiceName at h
  split at h
  · cases h
  · simp only [Bool.and_eq_true] at h
    exact slash_not_mem_of_all h.2 (by decide)

structure Validated (req : PortAllocationRequest) : Prop where
  safe : req.identity.Safe
  low : 1 ≤ req.minPort
  above : req.minPort ≤ req.preferredPort
  below : req.preferredPort ≤ req.maxPort

theorem validatePortAllocationRequest_ok (h : validatePortAllocationRequest parsesIP req = .ok ()) :
    Validated req := by
  simp only [validatePortAllocationRequest, checkPort, bind_eq_ok, require_eq_ok, exists_and_left,
    exists_const] at h
  obtain ⟨hkind, hproj, henv, hsvc, hrev, hslot, -, -, -, hmin, -, -, hpreferred⟩ := h
  refine ⟨⟨?_, ?_, ?_, ?_, ?_, ?_⟩, ?_, ?_, ?_⟩
  · change '/' ∉ req.kind.toList
    rw [hkind]
    decide
  · exact projectName_slash hproj
  · exact runtimeName_slash henv
  · exact serviceName_slash hsvc
  · change '/' ∉ req.revision.toList
    by_cases hempty : req.revision = ""
    · rw [hempty]
      decide
    · cases hname : isSafeRuntimeName req.revision with
      | true => exact runtimeName_slash hname
      | false => exact absurd ⟨hempty, hname⟩ hrev
  · change 1 ≤ req.slot
    omega
  · omega
  · omega
  · omega

end PortRegistry
