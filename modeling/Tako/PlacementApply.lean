import Tako.PlacementMovement
import Tako.Reconciliation
import Tako.ResourceNames

/-! # Applying a placement plan

`loadPriorPlacementState` reads the assignments of a desired revision's services; those of a service
that has none are proved by its containers, or the environment is refused. `applyPlacementMovement`
rewrites the revision from the configuration, the plan and the records of other services.
-/
namespace PlacementApply

open List GoPrelude GoMaps DeployConfig Scheduler PlacementMovement ResourceNames Except
open Reconciliation (ActualService)

structure DesiredService where
  name : String
  workloadKind : ServiceKind := .unset
  image : String := ""
  replicas : ℤ := 0
  assignments : List Assignment := []
  (persistent removalPending : Bool := false)
  deriving DecidableEq

structure DesiredRevision where
  (revisionID project environment source : String)
  targetNodes : List String := []
  services : GoMap DesiredService
  git : String := ""
  createdAt : Time

structure ActualSnapshot where
  services : GoMap ActualService := ∅
  nodes : GoMap (GoMap ActualService) := ∅

/-- The functions of the code that are not part of the model: SHA-256 in hexadecimal, the digest
of a plan, the identifier of a revision and the name of a built image. -/
structure Oracles where
  sha256Hex : String → String
  planHash : MovementPlan → String
  revisionHash : DesiredRevision → String
  builtImage : Config → String → String → ServiceConfig → String

variable (O : Oracles)

def membershipError (server : Option ServerConfig) (assignment : Assignment) : Bool :=
  match server with
  | none => false
  | some server =>
    assignment.nodeID != server.nodeID && (assignment.nodeID != "" || server.nodeID != "")

def validateMembership (cfg : Config) (serviceName : String) : List Assignment → Except String Unit
  | [] => .ok ()
  | assignment :: rest => do
    require (assignment.node ∈ cfg.servers)
      s!"desired assignment for service {serviceName} references missing node {assignment.node}"
    require (membershipError (cfg.servers.lookup assignment.node) assignment = false)
      (s!"desired assignment for service {serviceName} does not match immutable identity for " ++
        s!"node {assignment.node}")
    validateMembership cfg serviceName rest

def validateAssignmentMembership (cfg : Config) (serviceName : String)
    (assignments : List Assignment) : Except String Unit := do
  wrap (fun cause => s!"desired assignments for service {serviceName} are invalid: {cause}")
    (validateAssignments assignments)
  validateMembership cfg serviceName assignments

def containerName (project env service : String) (slot : ℤ) : String :=
  String.ofList (compactName O.sha256Hex '_' dockerNameMax
    ["tako", project, env, service, toString slot]
    (shortHash O.sha256Hex [project, env, service, toString slot]))

def revisionContainerName (project env service revision : String) (slot : ℤ) : String :=
  String.ofList (compactName O.sha256Hex '_' dockerNameMax
    ["tako", project, env, service, "r", revision, toString slot]
    (shortHash O.sha256Hex [project, env, service, revision, toString slot]))

def actualServiceContainsSlot (project env serviceName : String) (slot : ℤ)
    (actual : ActualService) : Bool :=
  let named := ([actual.currentRevision, actual.previousRevision] ++ actual.warmingRevisions).filter
    fun revision =>
    trimSpace revision != ""
  let want := containerName O project env serviceName slot ::
    (actual.revisionImages.keys ++ named).map fun revision =>
      revisionContainerName O project env serviceName revision slot
  (actual.containers ++ actual.activeContainers).any fun name => want.contains name

def nodesWith (actual : ActualSnapshot) (serviceName : String) : List (String × ActualService) :=
  (sortStrings actual.nodes.keys).filterMap fun node =>
    ((actual.nodes.lookup node).bind fun services => services.lookup serviceName).map fun service =>
      (node, service)

def replicasOn (service : ActualService) : ℤ :=
  if service.replicas = 0 ∧ service.containers ≠ [] then service.containers.length
    else service.replicas

section

variable (cfg : Config) (env serviceName : String)

def matchSlot (slot : ℤ) (matchedNode : String) : List (String × ActualService) →
    Except String String
  | [] => .ok matchedNode
  | (node, service) :: rest =>
    if actualServiceContainsSlot O cfg.project env serviceName slot service then
      if matchedNode ≠ "" then
        .error s!"legacy service {serviceName} slot {slot} appears on multiple nodes"
      else matchSlot slot node rest
    else matchSlot slot matchedNode rest

variable (expected : ℤ) (nodes : List (String × ActualService))

def adoptSlot (slot : ℤ) : Except String Assignment := do
  let found ← matchSlot O cfg env serviceName slot "" nodes
  let only := match nodes with
    | [(node, _)] => node
    | _ => ""
  let matchedNode := if found = "" ∧ expected = 1 then only else found
  require (matchedNode ≠ "")
    (s!"legacy service {serviceName} slot {slot} cannot be matched to an actual node; refuse " ++
      "implicit movement")
  require (matchedNode ∈ cfg.servers)
    s!"legacy service {serviceName} slot {slot} runs on missing node {matchedNode}"
  .ok { slot := slot, nodeID := (serverOf cfg.servers matchedNode).nodeID, node := matchedNode }

def adoptSlots : List ℤ → Except String (List Assignment)
  | [] => .ok []
  | slot :: rest => do
    let assignment ← adoptSlot O cfg env serviceName expected nodes slot
    let others ← adoptSlots rest
    .ok (assignment :: others)

def adoptJob : Except String (List Assignment) :=
  match nodes with
  | [(node, _)] => do
    require (node ∈ cfg.servers) s!"legacy job {serviceName} runs on missing node {node}"
    .ok [{ slot := 1, nodeID := (serverOf cfg.servers node).nodeID, node := node }]
  | _ => .error (s!"legacy job {serviceName} is present on {nodes.length} nodes; its single " ++
    "owner cannot be proven")

variable (kind : ServiceKind) (replicas : ℤ) (actual : Option ActualSnapshot)

/-- The assignments that the containers of a service prove, and whether it needs any. Of the
record only the kind and the number of replicas are read. -/
def adoptLegacyAssignments : Except String (List Assignment × Bool) :=
  match actual with
  | none => .ok ([], decide (0 < replicas))
  | some actual =>
    let nodes := nodesWith actual serviceName
    if kind = .job then do
      let adopted ← adoptJob cfg serviceName nodes
      .ok (adopted, true)
    else
      let total := ((actual.services.lookup serviceName).map ActualService.replicas).getD 0
      let expected := if total = 0 then (nodes.map fun node => replicasOn node.2).sum else total
      if expected = 0 then .ok ([], decide (0 < replicas))
      else if expected < 0 then .error "runtime error: makeslice: cap out of range"
      else do
        let adopted ← adoptSlots O cfg env serviceName expected nodes (slotNumbers expected)
        .ok (adopted, true)

/-- A service without assignments: adopted, or refused if it needs some and none are proven. -/
def adoptMissing : Except String (List Assignment) := do
  let (adopted, needed) ← adoptLegacyAssignments O cfg env serviceName kind replicas actual
  require (¬ (needed ∧ adopted = []))
    (s!"legacy desired state for service {serviceName} has no replica assignments and its " ++
      "actual placement cannot be proven; refuse to invent placement until the workload is " ++
      "explicitly adopted")
  .ok adopted

end

def loadAssigned (cfg : Config) (name : String) (service : DesiredService) :
    Except String (Option (List Assignment)) :=
  if service.assignments = [] then .ok none
  else do
    validateAssignmentMembership cfg name service.assignments
    .ok (some service.assignments)

def loadMissing (cfg : Config) (env : String) (actual : Option ActualSnapshot) (name : String)
    (service : DesiredService) : Except String (Option (List Assignment)) :=
  if service.assignments = [] then do
    let adopted ← adoptMissing O cfg env name service.workloadKind service.replicas actual
    .ok (if adopted = [] then none else some adopted)
  else .ok none

/-- The assignments of a stored revision; a missing snapshot is `none`. -/
def loadPriorPlacementState (cfg : Config) (env : String) (desired : DesiredRevision)
    (actual : Option ActualSnapshot) : Except String (GoMap (List Assignment)) := do
  let assigned ← collectFrom (loadAssigned cfg) desired.services.entries ∅
  collectFrom (loadMissing O cfg env actual) desired.services.entries assigned

def sanitizeDesiredService (serviceName : String) (service : ServiceConfig) (imageRef : String) :
    DesiredService :=
  { name := serviceName
    workloadKind := service.kind
    image := imageRef
    replicas := if service.replicas < 0 then 1 else service.replicas
    persistent := service.persistent }

def validateDesiredNodes (cfg : Config) (serviceName label : String) : List Assignment →
    Except String Unit
  | [] => .ok ()
  | assignment :: rest => do
    require (¬ (0 < cfg.servers.keys.length ∧ assignment.node ∉ cfg.servers))
      s!"{label} {serviceName} assignment references unknown node {assignment.node}"
    require (membershipError (cfg.servers.lookup assignment.node) assignment = false)
      (s!"{label} {serviceName} assignment for node {assignment.node} does not match immutable " ++
        "node identity")
    validateDesiredNodes cfg serviceName label rest

def validateDesiredAssignments (cfg : Config) (serviceName : String) (assignments : List Assignment)
    (label : String) : Except String Unit := do
  wrap (fun cause => s!"{label} {serviceName} assignments are invalid: {cause}")
    (validateAssignments assignments)
  validateDesiredNodes cfg serviceName label assignments

def assignmentsOf (assignments : GoMap (List Assignment)) (name : String) : List Assignment :=
  (assignments.lookup name).getD []

def preserveService (cfg : Config) (services : GoMap ServiceConfig)
    (assignments : GoMap (List Assignment)) (serviceName : String) (preserved : DesiredService) :
    Except String (Option DesiredService) := do
  require (serviceName ∉ services)
    s!"service {serviceName} cannot be both current and preserved desired state"
  require (¬ (preserved.name ≠ "" ∧ preserved.name ≠ serviceName))
    s!"preserved desired service {serviceName} has mismatched name {preserved.name}"
  let adopted := stable (assignmentsOf assignments serviceName)
  let kept := if adopted ≠ [] then adopted else stable preserved.assignments
  validateDesiredAssignments cfg serviceName kept "preserved desired"
  .ok (some { preserved with assignments := kept })

def desireService (cfg : Config) (env : String) (imageRefs : StringMap)
    (assignments : GoMap (List Assignment)) (serviceName : String) (service : ServiceConfig) :
    Except String (Option DesiredService) := do
  let recorded := (imageRefs.lookup serviceName).getD ""
  let imageRef :=
    if recorded ≠ "" then recorded
    else if service.image ≠ "" then service.image
    else O.builtImage cfg env serviceName service
  let assigned := stable (assignmentsOf assignments serviceName)
  validateDesiredAssignments cfg serviceName assigned "service"
  .ok (some { sanitizeDesiredService serviceName service imageRef with assignments := assigned })

/-- The revision without pending removals, which this caller has none of. -/
def buildDesiredRevisionWithPlacementSnapshot (now : Time) (cfg : Config) (env source : String)
    (services : GoMap ServiceConfig) (imageRefs : StringMap) (targetNodes : List String)
    (assignments : GoMap (List Assignment)) (preservedServices : GoMap DesiredService)
    (git : String) : Except String DesiredRevision := do
  let preserved ← collectFrom (preserveService cfg services assignments) preservedServices.entries ∅
  let all ← collectFrom (desireService O cfg env imageRefs assignments) services.entries preserved
  let revision : DesiredRevision :=
    { revisionID := "", project := cfg.project, environment := env, source := source,
      targetNodes := sortStrings targetNodes, services := all, git := git, createdAt := now }
  .ok { revision with revisionID := O.revisionHash revision }

def preservedDesiredServices (prior : DesiredRevision) (current : GoMap ServiceConfig) :
    GoMap DesiredService :=
  ⟨prior.services.entries.filter fun entry => entry.1 ∉ current,
    List.NodupKeys.sublist filter_sublist prior.services.nodupKeys⟩

def applyProposal (already : Bool) (assignments : GoMap (List Assignment))
    (proposal : MovementServiceProposal) : Except String (GoMap (List Assignment)) := do
  let current := stable (assignmentsOf assignments proposal.service)
  let expected := stable (if already then proposal.proposed else proposal.current)
  require (current = expected) s!"placement assignments for {proposal.service} changed after review"
  .ok (assignments.insert proposal.service proposal.proposed)

def storedAssignments (desired : DesiredRevision) : GoMap (List Assignment) :=
  ⟨desired.services.entries.map fun entry => ⟨entry.1, entry.2.assignments⟩, by
    rw [List.NodupKeys, keys, map_map]
    exact desired.services.nodupKeys⟩

def validatePlacementApplyState (plan : MovementPlan) (desired : DesiredRevision) :
    Except String (GoMap (List Assignment) × Bool) := do
  let already := desired.source == "placement:" ++ plan.planID
  require (¬ (desired.revisionID ≠ plan.inputRevisionID ∧ already = false))
    (s!"placement input revision {plan.inputRevisionID} is stale; controller is at " ++
      s!"{desired.revisionID}")
  let assignments ← plan.services.foldlM (applyProposal already) (storedAssignments desired)
  .ok (assignments, already)

/-- The revision that applying a reviewed plan writes to the controller `controller`, which held
`desired`; none is written for a plan that was applied before. -/
def applyPlacementMovement (now : Time) (cfg : Config) (requested controller : String)
    (plan : MovementPlan) (planID : String) (desired : DesiredRevision) :
    Except String (Option DesiredRevision) := do
  let env := trimSpace requested
  require (env ≠ "") "placement apply requires config and environment"
  wrap (fun cause => s!"invalid placement plan: {cause}") (validateMovementPlan O.planHash plan)
  require (plan.planID = trimSpace planID) "placement plan ID does not match reviewed ID"
  require (plan.executable ∧ plan.blockers = []) "placement plan has unresolved blockers"
  require (plan.moves ≠ []) "placement plan contains no executable moves"
  let services ← cfg.getServices env
  require (controller ∈ cfg.servers) s!"server {controller} not found"
  let (assignments, already) ← validatePlacementApplyState plan desired
  if already then .ok none
  else do
    let imageRefs : StringMap := mapOf
      (desired.services.entries.map fun entry => (entry.1, entry.2.image))
    let next ← buildDesiredRevisionWithPlacementSnapshot O now cfg env ("placement:" ++ plan.planID)
      services imageRefs desired.targetNodes assignments (preservedDesiredServices desired services)
        desired.git
    .ok (some next)

def loadService (cfg : Config) (env : String) (actual : Option ActualSnapshot) (name : String)
    (service : DesiredService) : Except String (List Assignment) :=
  if service.assignments = [] then
    adoptMissing O cfg env name service.workloadKind service.replicas actual
  else do
    validateAssignmentMembership cfg name service.assignments
    .ok service.assignments

variable {O}

theorem loadService_of_assigned {name : String} (h : service.assignments ≠ []) :
    loadService O cfg env actual name service = (do
      validateAssignmentMembership cfg name service.assignments
      .ok service.assignments) := if_neg h

theorem loadService_of_missing {name : String} (h : service.assignments = []) :
    loadService O cfg env actual name service =
      adoptMissing O cfg env name service.workloadKind service.replicas actual := if_pos h

theorem loadService_succeeds_iff {name : String} :
    (∃ l, loadService O cfg env actual name service = .ok l) ↔
      (∃ value, loadAssigned cfg name service = .ok value) ∧
        ∃ value, loadMissing O cfg env actual name service = .ok value := by
  by_cases hmissing : service.assignments = []
  · simp [loadService, loadAssigned, loadMissing, hmissing]
  · simp [loadService, loadAssigned, loadMissing, hmissing]

theorem load_succeeds_iff : (∃ m, loadPriorPlacementState O cfg env desired actual = .ok m) ↔
      ∀ name service, desired.services.lookup name = some service →
        ∃ l, loadService O cfg env actual name service = .ok l := by
  simp only [loadPriorPlacementState, bind_eq_ok, loadService_succeeds_iff]
  constructor
  · rintro ⟨m, assigned, hassigned, hm⟩ name service hlookup
    have hentry := AList.mem_lookup_iff.mp hlookup
    exact ⟨collectFrom_succeeds_iff.mp ⟨_, hassigned⟩ _ hentry,
      collectFrom_succeeds_iff.mp ⟨_, hm⟩ _ hentry⟩
  · intro h
    have hentries : ∀ entry ∈ desired.services.entries, _ := fun entry hentry =>
      h entry.1 entry.2 (AList.mem_lookup_iff.mpr hentry)
    obtain ⟨assigned, hassigned⟩ := collectFrom_succeeds_iff |>.mpr fun entry hentry =>
      (hentries entry hentry).1
    obtain ⟨m, hm⟩ := collectFrom_succeeds_iff |>.mpr fun entry hentry => (hentries entry hentry).2
    exact ⟨m, assigned, hassigned, hm⟩

theorem load_assignments (h : loadPriorPlacementState O cfg env desired actual = .ok m)
    : (∀ service, desired.services.lookup name = some service →
        loadService O cfg env actual name service = .ok (assignmentsOf m name)) ∧
      (desired.services.lookup name = none → assignmentsOf m name = []) := by
  have hloads := load_succeeds_iff.mp ⟨m, h⟩ name
  simp only [loadPriorPlacementState, bind_eq_ok] at h
  obtain ⟨assigned, hassigned, hm⟩ := h
  have hfirst := lookup_collectFrom hassigned name
  have hsecond := lookup_collectFrom hm name
  constructor
  · intro service hsvc
    obtain ⟨⟨first, hloaded⟩, second, hadopted⟩ := loadService_succeeds_iff.mp (hloads service hsvc)
    simp only [hsvc, Option.bind_some, hloaded, hadopted, Except.toOption,
      Option.join_some] at hfirst hsecond
    rw [assignmentsOf, hsecond, hfirst]
    by_cases hmissing : service.assignments = []
    · rw [loadService_of_missing hmissing]
      simp only [loadAssigned, hmissing, if_true, Except.ok.injEq] at hloaded
      simp only [loadMissing, hmissing, if_true, bind_eq_ok, Except.ok.injEq] at hadopted
      obtain ⟨adopted, hadopt, rfl⟩ := hadopted
      rw [hadopt, ← hloaded]
      by_cases hempty : adopted = []
      · simp [hempty]
      · simp [hempty]
    · rw [loadService_of_assigned hmissing]
      simp only [loadAssigned, hmissing, if_false, bind_eq_ok, Except.ok.injEq] at hloaded
      obtain ⟨u, hmember, rfl⟩ := hloaded
      simp only [loadMissing, hmissing, if_false, Except.ok.injEq] at hadopted
      rw [hmember, ← hadopted]
      rfl
  · intro hnone
    rw [hnone] at hfirst hsecond
    simp [assignmentsOf, hsecond, hfirst]

theorem loads_iff (Q : String → List Assignment → Prop) :
    (∃ m, loadPriorPlacementState O cfg env desired actual = .ok m ∧ ∀ name,
      Q name (assignmentsOf m name)) ↔
      ∀ name, (∀ service, desired.services.lookup name = some service →
          ∃ l, loadService O cfg env actual name service = .ok l ∧ Q name l) ∧
        (desired.services.lookup name = none → Q name []) := by
  constructor
  · rintro ⟨m, hm, hQ⟩ name
    obtain ⟨hsome, hnone⟩ := load_assignments hm
    refine ⟨fun service hsvc => ⟨_, hsome service hsvc, hQ name⟩, ?_⟩
    intro hlookup
    have hname := hQ name
    rwa [hnone hlookup] at hname
  · intro h
    obtain ⟨m, hm⟩ := load_succeeds_iff.mpr fun name service hsvc => by
      obtain ⟨l, hl, -⟩ := (h name).1 service hsvc
      exact ⟨l, hl⟩
    refine ⟨m, hm, ?_⟩
    intro name
    obtain ⟨hsome, hnone⟩ := load_assignments hm
    cases hlookup : desired.services.lookup name with
    | none =>
      rw [hnone hlookup]
      exact (h name).2 hlookup
    | some service =>
      obtain ⟨l, hl, hQ⟩ := (h name).1 service hlookup
      have heq := hsome service hlookup
      rw [hl] at heq
      cases heq
      exact hQ

/-- The builder checks at least what the loader checks, once the configuration has a server. -/
theorem membership_of_desired {name label : String} {l : List Assignment} {server : String}
    (hserver : server ∈ cfg.servers) (h : validateDesiredAssignments cfg name l label = .ok ()) :
    validateAssignmentMembership cfg name l = .ok () := by
  simp only [validateDesiredAssignments, bind_eq_ok, wrap_eq_ok] at h
  obtain ⟨u, hvalid, hnodes⟩ := h
  simp only [validateAssignmentMembership, bind_eq_ok, wrap_eq_ok]
  refine ⟨u, hvalid, ?_⟩
  have hpos := length_pos_of_mem (AList.mem_keys.mp hserver)
  clear hvalid
  induction l with
  | nil => rfl
  | cons a rest ih =>
    simp only [validateDesiredNodes, bind_eq_ok, require_eq_ok, hpos, true_and, not_not,
      exists_and_left, exists_const] at hnodes
    obtain ⟨hknown, hident, hrest⟩ := hnodes
    simp only [validateMembership, bind_eq_ok, require_eq_ok, exists_and_left, exists_const]
    exact ⟨hknown, hident, ih hrest⟩

theorem build_eq_ok {source git : String} {imageRefs : StringMap}
    {targetNodes : List String} {preserved : GoMap DesiredService}
    {next : DesiredRevision}
    (h : buildDesiredRevisionWithPlacementSnapshot O now cfg env source services imageRefs
      targetNodes assignments preserved git = .ok next) (name : String) :
    (∀ service, services.lookup name = some service → ∃ image, next.services.lookup name = some
            { sanitizeDesiredService name service image with
              assignments := stable (assignmentsOf assignments name) } ∧
          validateDesiredAssignments cfg name (stable (assignmentsOf assignments name)) "service" =
            .ok ()) ∧
      (services.lookup name = none → ∀ record, preserved.lookup name = some record →
        ∃ kept, next.services.lookup name = some { record with assignments := kept } ∧
          kept = (if stable (assignmentsOf assignments name) ≠ [] then
            stable (assignmentsOf assignments name)
            else stable record.assignments) ∧
          validateDesiredAssignments cfg name kept "preserved desired" = .ok ()) ∧
      (services.lookup name = none → preserved.lookup name = none →
        next.services.lookup name = none) := by
  simp only [buildDesiredRevisionWithPlacementSnapshot, bind_eq_ok] at h
  obtain ⟨kept, hkept, all, hall, hnext⟩ := h
  cases hnext
  have hpreserved := lookup_collectFrom hkept name
  have hsvcs := lookup_collectFrom hall name
  refine ⟨?_, ?_, ?_⟩
  · intro service hsvc
    obtain ⟨value, hvalue⟩ := collectFrom_succeeds_iff.mp ⟨_, hall⟩ _ (AList.mem_lookup_iff.mp hsvc)
    rw [hsvc, Option.bind_some, hvalue] at hsvcs
    simp only [desireService, bind_eq_ok] at hvalue
    obtain ⟨u, hvalid, hrec⟩ := hvalue
    cases hrec
    exact ⟨_, hsvcs, hvalid⟩
  · intro hnone record hrec
    obtain ⟨value, hvalue⟩ := collectFrom_succeeds_iff.mp ⟨_, hkept⟩ _
      (AList.mem_lookup_iff.mp hrec)
    rw [hrec, Option.bind_some, hvalue] at hpreserved
    rw [hnone] at hsvcs
    simp only [preserveService, bind_eq_ok, require_eq_ok, exists_and_left, exists_const] at hvalue
    obtain ⟨-, -, u, hvalid, hcarried⟩ := hvalue
    cases hcarried
    exact ⟨_, hsvcs.trans hpreserved, rfl, hvalid⟩
  · intro hnone hrec
    rw [hrec] at hpreserved
    rw [hnone] at hsvcs
    exact hsvcs.trans hpreserved

def carried (plan : MovementPlan) (desired : DesiredRevision) (name : String) : List Assignment :=
  match proposalFor plan.services name with
  | some proposal => proposal.proposed
  | none => ((desired.services.lookup name).map DesiredService.assignments).getD []

theorem assignmentsOf_stored (desired : DesiredRevision) (name : String) :
    assignmentsOf (storedAssignments desired) name =
      ((desired.services.lookup name).map DesiredService.assignments).getD [] := by
  exact congrArg (Option.getD · []) (dlookup_map₂ (f := fun _ => DesiredService.assignments) name)

theorem applyProposals_assignments {services : List MovementServiceProposal}
    (hnodup : (services.map MovementServiceProposal.service).Nodup)
    {result : GoMap (List Assignment)} (h : services.foldlM (applyProposal already) m = .ok result)
    : assignmentsOf result name = match proposalFor services name with
      | some proposal => proposal.proposed
      | none => assignmentsOf m name := by
  induction services generalizing m with
  | nil =>
    cases h
    rfl
  | cons proposal rest ih =>
    rw [foldlM_cons, bind_eq_ok] at h
    obtain ⟨next, hnext, hrest⟩ := h
    simp only [applyProposal, bind_eq_ok, require_eq_ok, exists_and_left, exists_const] at hnext
    obtain ⟨-, hnext⟩ := hnext
    cases hnext
    obtain ⟨hfresh, hnodup⟩ := nodup_cons.mp hnodup
    rw [ih hnodup hrest]
    by_cases hname : proposal.service = name
    · subst hname
      have hnone : proposalFor rest proposal.service = none := by
        rw [proposalFor, find?_eq_none]
        intro other hother heq
        exact hfresh (mem_map.mpr ⟨other, hother, beq_iff_eq.mp heq⟩)
      have hfound : proposalFor (proposal :: rest) proposal.service = some proposal := by
        simp [proposalFor]
      rw [hnone, hfound]
      simp [assignmentsOf]
    · have hskip : proposalFor (proposal :: rest) name = proposalFor rest name := by
        simp [proposalFor, hname]
      rw [hskip]
      simp [assignmentsOf, AList.lookup_insert_ne (Ne.symm hname)]

theorem validatePlacementApplyState_carried
    (hplan : (plan.services.map MovementServiceProposal.service).Nodup)
    (h : validatePlacementApplyState plan desired = .ok (assignments, already)) (name : String) :
    assignmentsOf assignments name = carried plan desired name := by
  simp only [validatePlacementApplyState, bind_eq_ok, require_eq_ok, exists_and_left,
    exists_const] at h
  obtain ⟨-, result, hres, hok⟩ := h
  cases hok
  rw [applyProposals_assignments hplan hres, assignmentsOf_stored]
  rfl

theorem lookup_preserved (services : GoMap ServiceConfig) {name : String}
    (hname : services.lookup name = none) :
    (preservedDesiredServices desired services).lookup name = desired.services.lookup name := by
  have hout := AList.lookup_eq_none.mp hname
  have hmem : ∀ record, record ∈ (preservedDesiredServices desired services).lookup name ↔
      record ∈ desired.services.lookup name := by
    intro record
    rw [AList.mem_lookup_iff, AList.mem_lookup_iff]
    simp [preservedDesiredServices, hout]
  exact Option.ext hmem

/-- What should be loaded after the plan: its proposals, and for other services what was loaded
before. -/
def expected (plan : MovementPlan) (before : GoMap (List Assignment)) (name : String) :
    List Assignment :=
  match proposalFor plan.services name with
  | some proposal => proposal.proposed
  | none => assignmentsOf before name

/-- When the rewritten revision is loaded as expected. A configured service that neither the plan
nor the stored revision gives assignments must be adopted as expected under its configured kind
and replicas; and a planned service that is not configured must have a record, and may lose its
assignments only if it had none. -/
structure Carries (O : Oracles) (cfg : Config) (env : String) (actual : Option ActualSnapshot)
    (services : GoMap ServiceConfig) (plan : MovementPlan) (desired : DesiredRevision)
    (before : GoMap (List Assignment)) : Prop where
  configured : ∀ name service, services.lookup name = some service →
    carried plan desired name = [] →
    ∃ adopted, adoptMissing O cfg env name service.kind
        (if service.replicas < 0 then 1 else service.replicas) actual = .ok adopted ∧
      stable adopted = stable (expected plan before name)
  recorded : ∀ name, services.lookup name = none → desired.services.lookup name = none →
    carried plan desired name = []
  retained : ∀ name record proposal, services.lookup name = none →
    desired.services.lookup name = some record →
    proposalFor plan.services name = some proposal → proposal.proposed = [] →
      assignmentsOf before name = []

section Rewriting

theorem expected_of_carried (hload : loadPriorPlacementState O cfg env desired actual = .ok before)
    (h : carried plan desired name ≠ []) :
    expected plan before name = carried plan desired name := by
  unfold expected carried at *
  cases hprop : proposalFor plan.services name with
  | some => rfl
  | none =>
    rw [hprop] at h
    cases hrec : desired.services.lookup name with
    | none => simp [hrec] at h
    | some record =>
      simp only [hrec, Option.map_some, Option.getD_some] at h ⊢
      have hloaded := (load_assignments hload).1 record hrec
      rw [loadService_of_assigned h, bind_eq_ok] at hloaded
      obtain ⟨-, -, hloaded⟩ := hloaded
      exact (ok.inj hloaded).symm

section

variable {server : String} {record : DesiredService}

theorem load_of_valid (hserver : server ∈ cfg.servers)
    (hvalid : validateDesiredAssignments cfg name record.assignments label = .ok ())
    (hassigned : record.assignments ≠ []) :
    loadService O cfg env actual name record = .ok record.assignments := by
  rw [loadService_of_assigned hassigned, membership_of_desired hserver hvalid]
  rfl

/-- A configured service is loaded as expected if it carries assignments, or is adopted so. -/
theorem configured_loads_iff (hserver : server ∈ cfg.servers)
    (hload : loadPriorPlacementState O cfg env desired actual = .ok before)
    (hassigned : record.assignments = stable (carried plan desired name))
    (hvalid : validateDesiredAssignments cfg name record.assignments label = .ok ()) :
    (∃ l, loadService O cfg env actual name record = .ok l ∧
      stable l = stable (expected plan before name)) ↔
      (carried plan desired name = [] →
        ∃ adopted, adoptMissing O cfg env name record.workloadKind record.replicas actual =
          .ok adopted ∧
          stable adopted = stable (expected plan before name)) := by
  by_cases hcarried : carried plan desired name = []
  · have hmissing : record.assignments = [] := by rw [hassigned, hcarried]; rfl
    rw [loadService_of_missing hmissing]
    exact ⟨fun h _ => h, fun h => h hcarried⟩
  · have hkept : record.assignments ≠ [] := by
      rw [hassigned]; exact fun h => hcarried (stable_eq_nil.mp h)
    refine iff_of_true ⟨_, load_of_valid hserver hvalid hkept, ?_⟩ fun h => absurd h hcarried
    rw [hassigned, stable_stable, expected_of_carried hload hcarried]

/-- A preserved record is loaded as expected unless the plan takes its last assignments away,
which the builder does not do. -/
theorem preserved_loads_iff {kept : List Assignment} (hserver : server ∈ cfg.servers)
    (hload : loadPriorPlacementState O cfg env desired actual = .ok before)
    (hrec : desired.services.lookup name = some record)
    (hkept : kept = if stable (carried plan desired name) ≠ [] then
      stable (carried plan desired name)
      else stable record.assignments)
    (hvalid : validateDesiredAssignments cfg name kept label = .ok ()) :
    (∃ l, loadService O cfg env actual name { record with assignments := kept } = .ok l ∧
        stable l = stable (expected plan before name)) ↔
      ∀ proposal, proposalFor plan.services name = some proposal → proposal.proposed = [] →
        assignmentsOf before name = [] := by
  have hbefore := (load_assignments hload).1 record hrec
  by_cases hcarried : carried plan desired name = []
  · -- Nothing is carried: the record keeps what it has, and is loaded as before.
    have hkeep : kept = stable record.assignments := by rw [hkept, hcarried]; rfl
    have hloaded : ∃ l, loadService O cfg env actual name { record with assignments := kept } =
      .ok l ∧
        stable l = stable (assignmentsOf before name) := by
      by_cases hmissing : record.assignments = []
      · have hnone : kept = [] := by rw [hkeep, hmissing]; rfl
        refine ⟨assignmentsOf before name, ?_, rfl⟩
        rw [← hbefore, loadService_of_missing hnone, loadService_of_missing hmissing]
      · have hsome : kept ≠ [] := by rw [hkeep]; exact fun h => hmissing (stable_eq_nil.mp h)
        refine ⟨kept, load_of_valid hserver hvalid hsome, ?_⟩
        rw [loadService_of_assigned hmissing, bind_eq_ok] at hbefore
        obtain ⟨-, -, hbefore⟩ := hbefore
        rw [hkeep, stable_stable, ok.inj hbefore]
    obtain ⟨l, hl, hstable⟩ := hloaded
    unfold carried at hcarried
    cases hprop : proposalFor plan.services name with
    | none =>
      refine iff_of_true ⟨l, hl, ?_⟩ (by simp)
      rw [hstable, expected, hprop]
    | some proposal =>
      rw [hprop] at hcarried
      have hexp : expected plan before name = [] := by rw [expected, hprop]; exact hcarried
      rw [hexp]
      constructor
      · rintro ⟨l', hl', hempty⟩ _ _ _
        rw [hl] at hl'
        cases hl'
        rw [hstable] at hempty
        exact stable_eq_nil.mp hempty
      · intro h
        exact ⟨l, hl, by rw [hstable, h proposal rfl hcarried]⟩
  · have hkeep : kept = stable (carried plan desired name) := by
      rw [hkept, if_pos fun h => hcarried (stable_eq_nil.mp h)]
    have hsome : kept ≠ [] := by rw [hkeep]; exact fun h => hcarried (stable_eq_nil.mp h)
    refine iff_of_true ⟨kept, load_of_valid hserver hvalid hsome, ?_⟩ ?_
    · rw [hkeep, stable_stable, expected_of_carried hload hcarried]
    · intro proposal hprop hempty
      rw [carried, hprop] at hcarried
      exact absurd hempty hcarried

end

end Rewriting

theorem applyPlacementMovement_eq_ok {requested controller planID : String}
    {written : DesiredRevision} (hsvcs : cfg.getServices (trimSpace requested) = .ok services)
    (h : applyPlacementMovement O now cfg requested controller plan planID desired =
      .ok (some written)) :
    controller ∈ cfg.servers ∧ ∃ assignments imageRefs,
      (∀ name, assignmentsOf assignments name = carried plan desired name) ∧
      buildDesiredRevisionWithPlacementSnapshot O now cfg (trimSpace requested)
        ("placement:" ++ plan.planID) services
        imageRefs desired.targetNodes assignments (preservedDesiredServices desired services)
          desired.git =
          .ok written := by
  simp only [applyPlacementMovement, hsvcs, bind_eq_ok, wrap_eq_ok, require_eq_ok, exists_and_left,
    exists_const] at h
  obtain ⟨-, u, hplan, -, -, -, services', hsame, hctrl, ⟨assignments, already⟩, hstate,
    hwritten⟩ := h
  cases hsame
  cases already with
  | true => simp at hwritten
  | false =>
    simp only [Bool.false_eq_true, if_false, bind_eq_ok] at hwritten
    obtain ⟨next, hnext, hsome⟩ := hwritten
    cases hsome
    exact ⟨hctrl, assignments, _,
      validatePlacementApplyState_carried (validateMovementPlan_nodup hplan) hstate, hnext⟩

/-- The revision that applying a plan writes is loaded again, with the plan's assignments and
otherwise those of before, exactly if every service carries its assignments over. -/
theorem applied_plan_loads_iff (O : Oracles) (now : Time) (cfg : Config)
    (requested controller planID : String) (plan : MovementPlan) (services : GoMap ServiceConfig)
    (desired written : DesiredRevision) (actual : Option ActualSnapshot)
    (before : GoMap (List Assignment))
    (hservices : cfg.getServices (trimSpace requested) = .ok services)
    (hload : loadPriorPlacementState O cfg (trimSpace requested) desired actual = .ok before)
    (happly : applyPlacementMovement O now cfg requested controller plan planID desired =
      .ok (some written)) :
    (∃ after, loadPriorPlacementState O cfg (trimSpace requested) written actual = .ok after ∧
        ∀ name, stable (assignmentsOf after name) = stable (expected plan before name)) ↔
      Carries O cfg (trimSpace requested) actual services plan desired before := by
  obtain ⟨hserver, assignments, imageRefs, hcarried, hbuilt⟩ :=
    applyPlacementMovement_eq_ok hservices happly
  have hbuild := build_eq_ok hbuilt
  simp only [hcarried] at hbuild
  rw [loads_iff fun name l => stable l = stable (expected plan before name)]
  -- The three ways a name can stand to the configuration and the stored revision.
  constructor
  · intro h
    refine ⟨?_, ?_, ?_⟩
    · intro name service hservice
      obtain ⟨image, hrecord, hvalid⟩ := (hbuild name).1 service hservice
      exact (configured_loads_iff hserver hload rfl hvalid).mp ((h name).1 _ hrecord)
    · intro name hservice hrecord
      have hnone := (hbuild name).2.2 hservice (by rw [lookup_preserved services hservice, hrecord])
      have hempty := (h name).2 hnone
      by_contra hne
      rw [expected_of_carried hload hne] at hempty
      exact hne (stable_eq_nil.mp hempty.symm)
    · intro name record proposal hservice hrecord hproposal hproposed
      obtain ⟨kept, hwritten, hkept, hvalid⟩ :=
        (hbuild name).2.1 hservice record (by rw [lookup_preserved services hservice, hrecord])
      exact (preserved_loads_iff hserver hload hrecord hkept hvalid).mp
        ((h name).1 _ hwritten) proposal hproposal hproposed
  · intro h name
    cases hservice : services.lookup name with
    | some service =>
      obtain ⟨image, hrecord, hvalid⟩ := (hbuild name).1 service hservice
      rw [hrecord]
      refine ⟨?_, by simp⟩
      rintro _ ⟨rfl⟩
      exact (configured_loads_iff hserver hload rfl hvalid).mpr (h.configured name service hservice)
    | none =>
      cases hrecord : desired.services.lookup name with
      | some record =>
        obtain ⟨kept, hwritten, hkept, hvalid⟩ :=
          (hbuild name).2.1 hservice record (by rw [lookup_preserved services hservice, hrecord])
        rw [hwritten]
        refine ⟨?_, by simp⟩
        rintro _ ⟨rfl⟩
        exact (preserved_loads_iff hserver hload hrecord hkept hvalid).mpr fun proposal hproposal
          hproposed =>
          h.retained name record proposal hservice hrecord hproposal hproposed
      | none =>
        rw [(hbuild name).2.2 hservice (by rw [lookup_preserved services hservice, hrecord])]
        refine ⟨by simp, fun _ => ?_⟩
        have hempty := h.recorded name hservice hrecord
        have hexpected : expected plan before name = [] := by
          unfold expected
          unfold carried at hempty
          cases hproposal : proposalFor plan.services name with
          | some => rwa [hproposal] at hempty
          | none => exact (load_assignments hload).2 hrecord
        rw [hexpected]

def sampleOracles : Oracles where
  sha256Hex text := text
  planHash plan := plan.inputRevisionID
  revisionHash revision := revision.source
  builtImage _ _ name _ := name

def shop (services : List (String × ServiceConfig)) : Config where
  project := "shop"
  servers := mapOf [("a", {}), ("b", {})]
  environments := mapOf [("production", { servers := ["a", "b"], services := mapOf services })]

def web : ServiceConfig := { image := "web:1", replicas := 2 }

def onNode (slot : ℤ) (node : String) : Assignment := { slot := slot, nodeID := "", node := node }

def stored : DesiredRevision where
  revisionID := "r1"
  project := "shop"
  environment := "production"
  source := "deploy"
  services := mapOf [("web",
    { name := "web", image := "web:1", replicas := 2,
      assignments := [onNode 1 "a", onNode 2 "a"] })]
  createdAt := 0

def spreadWeb : MovementPlan where
  apiVersion := planAPIVersion
  kind := planKind
  planID := "sha256:r1"
  mode := "rebalance"
  inputRevisionID := "r1"
  targetNode := ""
  targetNodeID := ""
  services := [
    { service := "web", current := [onNode 1 "a", onNode 2 "a"],
      proposed := [onNode 1 "b", onNode 2 "a"] }]
  impacts := []
  moves := [{ service := "web", slot := 1, fromNode := "a", fromNodeID := "", toNode := "b" }]
  blockers := []
  executable := true
  requiresReview := true
  createdAt := 0

/-- The configuration also has a service that was never deployed. The revision that the plan writes
has a record of it without assignments, and is refused. -/
theorem undeployed_service_locks_environment :
    (loadPriorPlacementState sampleOracles
      (shop [("web", web), ("api", { image := "api:1", replicas := 1 })])
        "production" stored none).isOk ∧
      ((applyPlacementMovement sampleOracles 1
          (shop [("web", web), ("api", { image := "api:1", replicas := 1 })]) "production" "a"
            spreadWeb "sha256:r1"
          stored).toOption.join.map fun written =>
        (loadPriorPlacementState sampleOracles
          (shop [("web", web), ("api", { image := "api:1", replicas := 1 })])
          "production" written none).isOk) = some false := by
  decide +kernel

theorem spreadWeb_written : ∃ written,
    applyPlacementMovement sampleOracles 1 (shop [("web", web)]) "production" "a"
    spreadWeb "sha256:r1" stored = .ok (some written) := by
  obtain ⟨written, happly⟩ := Option.isSome_iff_exists.mp
    (by decide +kernel : (applyPlacementMovement sampleOracles 1
    (shop [("web", web)]) "production" "a" spreadWeb "sha256:r1" stored).toOption.join.isSome)
  rw [Option.join_eq_some_iff, toOption_eq_some_iff] at happly
  exact ⟨written, happly⟩

/-- Without the new service the plan is applied and loaded as proposed. -/
theorem spread_web_loads : ∃ before written after,
      loadPriorPlacementState sampleOracles (shop [("web", web)])
        (trimSpace "production") stored none = .ok before ∧
      applyPlacementMovement sampleOracles 1 (shop [("web", web)]) "production" "a" spreadWeb
        "sha256:r1" stored =
        .ok (some written) ∧
      loadPriorPlacementState sampleOracles (shop [("web", web)])
        (trimSpace "production") written none = .ok after ∧
      ∀ name, stable (assignmentsOf after name) = stable (expected spreadWeb before name) := by
  have hbefore :
      ((loadPriorPlacementState sampleOracles (shop [("web", web)]) (trimSpace "production") stored
      none).toOption).isSome := by decide +kernel
  have hservices : (shop [("web", web)]).getServices (trimSpace "production") =
      .ok (mapOf [("web", web)]) := by
    rfl
  obtain ⟨before, hload⟩ := exists_ok hbefore
  obtain ⟨written, happly⟩ := spreadWeb_written
  obtain ⟨after, hafter, hexpected⟩ :=
    (applied_plan_loads_iff sampleOracles 1 (shop [("web", web)]) "production"
    "a" "sha256:r1" spreadWeb (mapOf [("web", web)]) stored written none before hservices hload
      happly).mpr
    { configured := by
        intro name service hservice hempty
        obtain ⟨rfl, rfl⟩ := mapOf_singleton_lookup hservice
        exact absurd hempty (by decide +kernel)
      recorded := by
        intro name hnone _
        have hname : name ≠ "web" := by
          rintro rfl
          exact absurd hnone (by decide +kernel)
        have hmissing : stored.services.lookup name = none := by
          rw [stored, mapOf, foldr_cons, AList.lookup_insert_ne hname]
          rfl
        simp [carried, proposalFor, spreadWeb, hname.symm, hmissing]
      retained := by
        intro name record proposal hnone hrecord
        obtain ⟨rfl, -⟩ := mapOf_singleton_lookup hrecord
        exact absurd hnone (by decide +kernel) }
  exact ⟨before, written, after, hload, happly, hafter, hexpected⟩

section Adoption

variable (O) (cfg : Config) (env serviceName : String)

/-- The nodes of the list on which a container of the slot is found. -/
def holders (nodes : List (String × ActualService)) (slot : ℤ) : List String :=
  (nodes.filter fun node => actualServiceContainsSlot O cfg.project env serviceName slot node.2).map
    Prod.fst

/-- The replicas of the aggregate, or else those the nodes report. -/
def legacyReplicas (actual : ActualSnapshot) : ℤ :=
  let total := ((actual.services.lookup serviceName).map ActualService.replicas).getD 0
  if total = 0 then ((nodesWith actual serviceName).map fun node => replicasOn node.2).sum
    else total

/-- The slot is found on the assigned node and on no other. The only slot of a service may be found
nowhere, if the node is the only one that reports the service. -/
structure Proves (total : ℤ) (nodes : List (String × ActualService)) (a : Assignment) : Prop where
  configured : a.node ∈ cfg.servers
  nodeID : a.nodeID = (serverOf cfg.servers a.node).nodeID
  found : holders O cfg env serviceName nodes a.slot = [a.node] ∨
    holders O cfg env serviceName nodes a.slot = [] ∧ total = 1 ∧ nodes.map Prod.fst = [a.node]

variable {O cfg env serviceName} {nodes : List (String × ActualService)}

/-- The empty name stands for no node, so an unnamed node is overlooked. -/
theorem matchSlot_ok (h : matchSlot O cfg env serviceName slot matched nodes = .ok found) :
    [matched].filter (· ≠ "") ++ (holders O cfg env serviceName nodes slot).filter (· ≠ "") =
      [found].filter (· ≠ "") := by
  induction nodes generalizing matched with
  | nil =>
    cases h
    simp [holders]
  | cons node rest ih =>
    rw [matchSlot] at h
    split_ifs at h with hcontains hmatched
    · have hcons : holders O cfg env serviceName (node :: rest) slot =
          [node.1] ++ holders O cfg env serviceName rest slot := by simp [holders, hcontains]
      rw [not_not] at hmatched
      rw [hcons, filter_append, hmatched]
      exact ih h
    · simpa [holders, hcontains] using ih h

theorem adoptSlot_ok (h : adoptSlot O cfg env serviceName total nodes slot = .ok a) :
    a.slot = slot ∧ (Proves O cfg env serviceName total nodes a ↔
      "" ∉ holders O cfg env serviceName nodes slot) := by
  simp only [adoptSlot, bind_eq_ok, require_eq_ok, ok.injEq] at h
  obtain ⟨found, hmatch, _, hnamed, _, hserver, rfl⟩ := h
  have hfound := matchSlot_ok hmatch
  refine ⟨rfl, fun hproves => ?_, fun hnone => ⟨hserver, rfl, ?_⟩⟩
  · rcases hproves.found with hone | ⟨hempty, -⟩
    · rw [hone, mem_singleton]
      exact Ne.symm hnamed
    · rw [hempty]
      exact not_mem_nil
  · have hall : (holders O cfg env serviceName nodes slot).filter (· ≠ "") =
        holders O cfg env serviceName nodes slot :=
      filter_eq_self.mpr fun node hnode => decide_eq_true fun hunnamed => hnone (hunnamed ▸ hnode)
    rw [hall] at hfound
    by_cases hempty : found = ""
    · right
      subst hempty
      refine ⟨hfound, ?_⟩
      split_ifs at hnamed ⊢ with hone
      · refine ⟨hone.2, ?_⟩
        split at hnamed
        · rfl
        · exact absurd rfl hnamed
      · exact absurd rfl hnamed
    · left
      simpa [hempty] using hfound

theorem adoptSlots_ok {slots : List ℤ}
    (h : adoptSlots O cfg env serviceName total nodes slots = .ok assignments) :
    assignments.map Assignment.slot = slots ∧
      ((∀ a ∈ assignments, Proves O cfg env serviceName total nodes a) ↔
        ∀ slot ∈ slots, "" ∉ holders O cfg env serviceName nodes slot) := by
  induction slots generalizing assignments with
  | nil =>
    cases h
    simp
  | cons slot rest ih =>
    simp only [adoptSlots, bind_eq_ok, ok.injEq] at h
    obtain ⟨a, ha, others, hothers, rfl⟩ := h
    obtain ⟨hslot, hproves⟩ := adoptSlot_ok ha
    obtain ⟨hslots, hall⟩ := ih hothers
    rw [map_cons, hslot, hslots, forall_mem_cons, forall_mem_cons, hproves, hall]
    exact ⟨rfl, Iff.rfl⟩

end Adoption

def legacyWeb (slot : ℤ) : ActualService :=
  { replicas := 1, containers := [containerName sampleOracles "shop" "production" "web" slot] }

def legacySnapshot (total : ℤ) (nodes : List (String × ActualService)) : ActualSnapshot where
  services := mapOf [("web", { replicas := total })]
  nodes := mapOf (nodes.map fun node => (node.1, mapOf [("web", node.2)]))

end PlacementApply
