import Mathlib.Algebra.BigOperators.Group.Finset.Basic
import Mathlib.Algebra.Ring.Nat
import Tako.Reconciliation
import Tako.Scheduler

/-! # Deployments converge

A service whose nodes run exactly the planned slots should not be planned again. A global service
has one slot per node, while the comparison expects the configured count.
-/
namespace Convergence

open List GoPrelude GoMaps NodeIdentity DeployConfig Reconciliation Scheduler SliceOrder

structure TakodAssignment where
  serverName : String
  slot : ℤ
  deriving DecidableEq

structure Deployer where
  config : Config
  environment : String
  assignments : GoMap (List Assignment) := ∅

namespace Deployer

variable (d : Deployer)

def server (name : String) : ServerConfig := serverOf d.config.servers name

def prior (serviceName : String) : List Assignment := (d.assignments.lookup serviceName).getD []

def checkPrior (serviceName : String) : List Assignment → Except String Unit
  | [] => .ok ()
  | assignment :: rest => do
    require (assignment.node ∈ d.config.servers)
      (s!"persisted assignment for {serviceName} slot {assignment.slot} references missing node " ++
        s!"{assignment.node}")
    let nodeID := (d.server assignment.node).nodeID
    require (¬ (assignment.nodeID ≠ nodeID ∧ (assignment.nodeID ≠ "" ∨ nodeID ≠ "")))
      (s!"persisted assignment for {serviceName} slot {assignment.slot} has node identity " ++
        s!"{assignment.nodeID}, but {assignment.node} is now {nodeID}")
    checkPrior serviceName rest

/-- Without pinning, the first target that may be the control plane comes first. -/
def preferDefaultWorker (targets : List String) (placement : Option PlacementConfig) :
    List String :=
  let pinned := (placement.map fun p => trimSpace p.strategy == Strategy.pinned.text).getD false
  let controller := fun name => (d.server name).hasPlatformRole roleControlPlane
  if pinned then targets
  else
    match targets.find? controller with
    | none => targets
    | some name => name :: targets.eraseP controller

def retainedKey (assignment : Assignment) : String :=
  s!"{assignment.slot}/{assignment.node}/{assignment.nodeID}"

def validateRemovedAssignmentMutationTargets (serviceName : String)
    (prior planned : List Assignment) : Except String Unit :=
  (prior.filter fun assignment => retainedKey assignment ∉ planned.map retainedKey).forM
    fun assignment => do
    require (assignment.node ∈ d.config.servers)
      (s!"service {serviceName} removed replica slot {assignment.slot} references missing node " ++
        s!"{assignment.node}")
    require ((d.server assignment.node).schedulable)
      (s!"service {serviceName} cannot remove replica slot {assignment.slot} from node " ++
        s!"{assignment.node} ({(d.server assignment.node).lifecycle.text}); the node cannot " ++
        "receive cleanup mutations, so approve and apply a drain plan first")

def identify (assignment : Assignment) : Assignment :=
  if assignment.nodeID = "" then { assignment with nodeID := (d.server assignment.node).nodeID }
    else assignment

def store (serviceName : String) (assignments : List Assignment) : Deployer :=
  { d with assignments := d.assignments.insert serviceName assignments }

section

variable (serviceName : String) (service : ServiceConfig)

def planSlots (permitted targets : List String) : Except String (List Assignment) :=
  let single := service.isJob || service.isRun
  let replicas := if single ∨ service.replicas ≤ 0 then 1 else service.replicas
  if service.isGlobal then
    wrap (fun cause => s!"plan global assignments for {serviceName}: {cause}")
      (planGlobal permitted targets (d.prior serviceName))
  else
    wrap (fun cause => s!"plan sticky assignments for {serviceName}: {cause}")
      (planSticky replicas permitted targets (d.prior serviceName))

def planTakodAssignments : Except String (List TakodAssignment × Deployer) := do
  let servers ← wrap (fun cause => s!"failed to get takod target servers: {cause}")
    (d.config.getEnvironmentServers d.environment)
  require (servers ≠ []) s!"environment {d.environment} has no target servers"
  require (0 ≤ service.replicas) "replicas cannot be negative"
  d.checkPrior serviceName (d.prior serviceName)
  let permitted ← resolvePlacementTargets service.placement d.config.servers servers d.environment
  let targets := d.preferDefaultWorker (permitted.filter fun name => (d.server name).schedulable)
    service.placement
  -- Jobs and deploy-time runs have one owning node, and zero replicas mean nothing for them.
  if service.replicas = 0 ∧ ¬ (service.isJob || service.isRun) ∧ ¬ service.isGlobal then do
    d.validateRemovedAssignmentMutationTargets serviceName (d.prior serviceName) []
    .ok ([], d.store serviceName [])
  else do
    let planned ← d.planSlots serviceName service permitted targets
    d.validateRemovedAssignmentMutationTargets serviceName (d.prior serviceName) planned
    let identified := planned.map d.identify
    .ok (identified.map fun assignment =>
      { serverName := assignment.node, slot := assignment.slot },
      d.store serviceName (stable identified))

def Plans (planned : List TakodAssignment) : Prop :=
  match d.planTakodAssignments serviceName service with
  | .ok (assignments, _) => assignments = planned
  | .error _ => False

end

instance (serviceName : String) (service : ServiceConfig) (planned : List TakodAssignment) :
    Decidable (d.Plans serviceName service planned) := by
  unfold Plans
  split <;> infer_instance

def environmentNodes : List String :=
  match d.config.getEnvironmentServers d.environment with
  | .ok servers => servers
  | .error _ => []

/-- The nodes a global service runs on: those it is assigned to, and the schedulable nodes of the
environment that its constraints accept. -/
def globalNodes (serviceName : String) (service : ServiceConfig) : Finset String :=
  ((d.prior serviceName).map Assignment.node).toFinset ∪
    (d.environmentNodes.filter fun name =>
      (d.server name).schedulable &&
        accepts (d.server name) ((service.placement.map PlacementConfig.constraints).getD
          [])).toFinset

variable {d}

theorem mem_preferDefaultWorker : name ∈ d.preferDefaultWorker targets placement ↔
    name ∈ targets := by
  unfold preferDefaultWorker
  dsimp only
  split_ifs
  · rfl
  · split
    · rfl
    · rename_i first hfirst
      exact (perm_cons_eraseP hfirst).mem_iff.symm

theorem planTakodAssignments_eq_ok (hpos : 1 ≤ service.replicas)
    (h : d.Plans serviceName service planned) :
    ∃ permitted slots,
      resolvePlacementTargets service.placement d.config.servers d.environmentNodes d.environment =
        .ok permitted ∧
      d.planSlots serviceName service permitted
        (d.preferDefaultWorker (permitted.filter fun name => (d.server name).schedulable)
          service.placement) =
          .ok slots ∧
      planned.map TakodAssignment.serverName = slots.map Assignment.node := by
  unfold Plans at h
  split at h
  case h_2 => exact h.elim
  case h_1 assignments after hok =>
  subst h
  simp only [planTakodAssignments, bind_eq_ok, wrap_eq_ok, require_eq_ok, exists_and_left,
    exists_const] at hok
  obtain ⟨servers, hservers, -, -, _, -, permitted, hperm, hplanned⟩ := hok
  have hscaled : ¬ (service.replicas = 0 ∧ ¬ (service.isJob || service.isRun) ∧
      ¬ service.isGlobal) := by
    rintro ⟨hzero, -⟩
    omega
  rw [if_neg hscaled] at hplanned
  simp only [bind_eq_ok] at hplanned
  obtain ⟨slots, hslots, _, -, hplanned⟩ := hplanned
  refine ⟨permitted, slots, ?_, hslots, ?_⟩
  · rw [environmentNodes, hservers]
    exact hperm
  · cases hplanned
    rw [map_map, map_map]
    apply map_congr_left
    intro assignment _
    simp only [Function.comp_apply, identify]
    split_ifs <;> rfl

theorem planned_length_sticky (hpos : 1 ≤ service.replicas) (hrun : service.isRun = false)
    (hjob : service.isJob = false) (hsticky : service.isGlobal = false)
    (h : d.Plans serviceName service planned) : (planned.length : ℤ) = service.replicas := by
  obtain ⟨permitted, slots, -, hslots, hnodes⟩ := planTakodAssignments_eq_ok hpos h
  have hlen : planned.length = slots.length := by
    have := congrArg length hnodes
    rwa [length_map, length_map] at this
  have hreplicas : ¬ service.replicas ≤ 0 := by omega
  simp only [planSlots, hsticky, hrun, hjob, Bool.false_eq_true, if_false, wrap_eq_ok, Bool.or_self,
    false_or, hreplicas] at hslots
  rw [hlen]
  exact planSticky_length hslots

theorem planned_length_global (hpos : 1 ≤ service.replicas) (hglobal : service.isGlobal)
    (h : d.Plans serviceName service planned) :
    planned.length = (d.globalNodes serviceName service).card := by
  obtain ⟨permitted, slots, hperm, hslots, hnodes⟩ := planTakodAssignments_eq_ok hpos h
  simp only [planSlots, hglobal, if_true, wrap_eq_ok] at hslots
  obtain ⟨hnodup, hmem⟩ := planGlobal_nodes hslots
  have hset : (slots.map Assignment.node).toFinset = d.globalNodes serviceName service := by
    ext name
    rw [mem_toFinset, hmem, mem_preferDefaultWorker, mem_filter,
      mem_resolvePlacementTargets_global hglobal hperm, globalNodes, Finset.mem_union, mem_toFinset,
      mem_toFinset, mem_filter, Bool.and_eq_true]
    constructor
    · rintro (hprior | ⟨⟨hin, hacc⟩, hsched⟩)
      · exact .inl hprior
      · exact .inr ⟨hin, hsched, hacc⟩
    · rintro (hprior | ⟨hin, hsched, hacc⟩)
      · exact .inl hprior
      · exact .inr ⟨⟨hin, hacc⟩, hsched⟩
  rw [← hset, toFinset_card_of_nodup hnodup, ← hnodes, length_map]

end Deployer

@[mk_iff] structure ReportsAs (F : Fingerprints) (d : Deployer) (serviceName : String)
    (desired : ServiceConfig) (hash : String) (report : ActualService) : Prop where
  image : desired.image ≠ "" → report.image = desired.image
  configHash : report.configHash = hash
  runtimeID : report.runtimeID = F.serviceIdentity d.config.project d.environment serviceName
  persistent : (report.configSnapshot.map ServiceConfig.persistent) = some desired.persistent

def slotsOn (planned : List TakodAssignment) (node : String) : ℕ :=
  (planned.map TakodAssignment.serverName).count node

/-- Each node runs exactly the slots planned for it; a node without slots may report nothing. -/
structure Deployed (F : Fingerprints) (d : Deployer) (serviceName : String)
    (desired : ServiceConfig) (hash : String) (planned : List TakodAssignment)
    (reports : GoMap NodeState) : Prop where
  covered : ∀ assignment ∈ planned, assignment.serverName ∈ reports
  missing : ∀ node ∈ reports.entries, reportOf node.2 serviceName = none →
    slotsOn planned node.1 = 0
  reported : ∀ node ∈ reports.entries, ∀ report ∈ reportOf node.2 serviceName,
    ReportsAs F d serviceName desired hash report ∧ report.replicas = slotsOn planned node.1

instance (F : Fingerprints) (d : Deployer) (serviceName : String) (desired : ServiceConfig)
    (hash : String) (report : ActualService) :
    Decidable (ReportsAs F d serviceName desired hash report) :=
  decidable_of_iff' _ (reportsAs_iff ..)

def Collected (F : Fingerprints) (d : Deployer) (serviceName : String) (desired : ServiceConfig)
    (hash : String) (total : ℕ) : Option ActualService → Prop
  | none => total = 0
  | some aggregate => ReportsAs F d serviceName desired hash aggregate ∧ aggregate.replicas = total

section Aggregation

variable {hash : String}

theorem ReportsAs.merge (h : ReportsAs F d serviceName desired hash existing)
    (k : ReportsAs F d serviceName desired hash incoming) :
    ReportsAs F d serviceName desired hash (existing.merge incoming) where
  image hnamed := by
    simp only [ActualService.merge]
    split_ifs
    · exact k.image hnamed
    · exact h.image hnamed
  configHash := by
    simp only [ActualService.merge, mergeConfigHash, h.configHash, k.configHash]
    split_ifs <;> simp_all
  runtimeID := by simp [ActualService.merge, mergeRuntimeID, h.runtimeID, k.runtimeID]
  persistent := h.persistent

theorem Collected.combine {total count : ℕ}
    (h : Collected F d serviceName desired hash total existing) (hnone : report = none → count = 0)
    (hsome : ∀ r, report = some r → ReportsAs F d serviceName desired hash r ∧ r.replicas = count) :
    Collected F d serviceName desired hash (total + count)
      (Reconciliation.combine existing report) := by
  cases report with
  | none =>
    rw [hnone rfl]
    exact h
  | some report =>
    obtain ⟨hgood, hcount⟩ := hsome report rfl
    cases existing with
    | none =>
      have htotal : total = 0 := h
      exact ⟨hgood, by rw [hcount, htotal, Nat.zero_add]⟩
    | some =>
      refine ⟨h.1.merge hgood, ?_⟩
      simp only [ActualService.merge, h.2, hcount]
      omega

variable {servers : List String}

theorem Deployed.collected {reports : GoMap NodeState}
    (h : Deployed F d serviceName desired hash planned reports)
    (hservers : ∀ server ∈ servers, server ∈ reports) (total : ℕ) (existing : Option ActualService)
    (hold : Collected F d serviceName desired hash total existing) :
    Collected F d serviceName desired hash (total + (servers.map (slotsOn planned)).sum)
      (servers.foldl (fun existing server =>
        Reconciliation.combine existing (reportOf ((reports.lookup server).getD ∅) serviceName))
          existing) := by
  induction servers generalizing total existing with
  | nil => exact hold
  | cons server rest ih =>
    obtain ⟨hserver, hrest⟩ := forall_mem_cons.mp hservers
    obtain ⟨state, hstate⟩ := exists_lookup hserver
    rw [map_cons, sum_cons, ← Nat.add_assoc, foldl_cons, hstate]
    apply ih hrest
    apply hold.combine
    · exact h.missing ⟨server, state⟩ (AList.mem_lookup_iff.mp hstate)
    · exact h.reported ⟨server, state⟩ (AList.mem_lookup_iff.mp hstate)

theorem sum_slotsOn (hnodup : servers.Nodup)
    (hcovered : ∀ assignment ∈ planned, assignment.serverName ∈ servers) :
    (servers.map (slotsOn planned)).sum = planned.length := by
  have hcount := Multiset.sum_count_eq_card
    (by
      intro name hname
      obtain ⟨assignment, hassignment, rfl⟩ := mem_map.mp (Multiset.mem_coe.mp hname)
      exact mem_toFinset.mpr (hcovered assignment hassignment))
  simp only [Multiset.coe_count, Multiset.coe_card, length_map] at hcount
  rw [← sum_toFinset _ hnodup]
  exact hcount

/-- The aggregate counts the planned slots and is otherwise what was desired. -/
theorem Deployed.aggregate {reports : GoMap NodeState}
    (h : Deployed F d serviceName desired hash planned reports) (hplanned : planned ≠ []) :
    ∃ aggregate, (aggregateActualStateByServer reports).lookup serviceName = some aggregate ∧
      ReportsAs F d serviceName desired hash aggregate ∧ aggregate.replicas = planned.length := by
  have hperm : (sortStrings reports.keys).Perm reports.keys := perm_insertionSort _ _
  have hin : ∀ server ∈ sortStrings reports.keys, server ∈ reports := fun server hs =>
    AList.mem_keys.mp (hperm.mem_iff.mp hs)
  have hcoll := h.collected hin 0 none rfl
  rw [Nat.zero_add, sum_slotsOn (hperm.nodup_iff.mpr reports.keys_nodup),
    ← lookup_aggregate] at hcoll
  · cases hlookup : (aggregateActualStateByServer reports).lookup serviceName with
    | none =>
      rw [hlookup] at hcoll
      exact absurd (length_eq_zero_iff.mp hcoll) hplanned
    | some aggregate =>
      rw [hlookup] at hcoll
      exact ⟨aggregate, rfl, hcoll⟩
  · intro assignment hassignment
    exact hperm.mem_iff.mpr (AList.mem_keys.mpr (h.covered assignment hassignment))

/-- For a service reported as desired only the number of replicas is left to compare. -/
theorem ReportsAs.detectChanges_eq_nil_iff (h : ReportsAs F d serviceName desired hash report)
    (hhash : F.configHash desired = some hash) (hnonempty : hash ≠ "") :
    detectChanges F d.config.project d.environment serviceName desired report = [] ↔
      expectedReplicas desired = report.replicas := by
  obtain ⟨snapshot, hsnap, hpers⟩ := Option.map_eq_some_iff.mp h.persistent
  have himage : ¬ (desired.image ≠ "" ∧ desired.image ≠ report.image) := by
    rintro ⟨hnamed, hdiffers⟩
    exact hdiffers (h.image hnamed).symm
  have hreasons : identityReasons F d.config.project d.environment serviceName desired report
      snapshot = [] ↔
      expectedReplicas desired = report.replicas := by
    simp only [identityReasons, append_eq_nil_iff, reasonIf_eq_nil, h.runtimeID, hpers, himage,
      ne_eq, not_true_eq_false, and_false, not_false_eq_true, true_and, and_true, not_not]
  have hrec : report.configHash ≠ "" := by
    rw [h.configHash]
    exact hnonempty
  unfold detectChanges
  rw [hsnap]
  dsimp only
  rw [if_pos hrec, hhash]
  by_cases hnil : identityReasons F d.config.project d.environment serviceName desired report
    snapshot = []
  · simp [hnil, h.configHash, hreasons.mp hnil]
  · rw [if_pos hnil]
    exact hreasons

end Aggregation

/-- A deployed service is planned as unchanged exactly if it is not global, or runs on as many
nodes as it has replicas configured. -/
theorem deployed_service_unchanged_iff (F : Fingerprints) (d : Deployer) (serviceName hash : String)
    (declared service : ServiceConfig) (desiredServices : GoMap ServiceConfig)
    (planned : List TakodAssignment) (reports : GoMap NodeState)
    (hvalid : validateServiceReplicas serviceName declared = .ok service)
    (hrun : service.isRun = false) (hjob : service.isJob = false)
    (hdesired : desiredServices.lookup serviceName = some service)
    (hplan : d.Plans serviceName service planned) (hplanned : planned ≠ [])
    (hhash : F.configHash service = some hash) (hnonempty : hash ≠ "")
    (hdeployed : Deployed F d serviceName service hash planned reports) :
    (computePlan F d.config.project d.environment desiredServices
        (aggregateActualStateByServer reports)).Unchanged serviceName ↔
      (service.isGlobal → ((d.globalNodes serviceName service).card : ℤ) = service.replicas) := by
  have hpos := validateServiceReplicas_pos hvalid
  have hexpected : expectedReplicas service = service.replicas := by
    rw [expectedReplicas, if_neg (by omega)]
  obtain ⟨aggregate, hlookup, hgood, hcount⟩ := hdeployed.aggregate hplanned
  rw [computePlan_unchanged_iff hdesired, hlookup, ordinary_unchanged_iff hrun hjob,
    hgood.detectChanges_eq_nil_iff hhash hnonempty, hexpected, hcount]
  cases hglobal : service.isGlobal with
  | false => simp [Deployer.planned_length_sticky hpos hrun hjob hglobal hplan]
  | true =>
    rw [Deployer.planned_length_global hpos hglobal hplan]
    simp [eq_comm]

def twoNodes : Deployer where
  environment := "production"
  config :=
    { project := "shop"
      servers := mapOf [("n1", {}), ("n2", {})]
      environments := mapOf [("production", { servers := ["n1", "n2"] })] }

def textHash : Fingerprints where
  configHash service := some (s!"{service.image}/{service.replicas}")
  serviceIdentity project env service := s!"{project}/{env}/{service}"

def agent : ServiceConfig := { image := "agent:1", placement := some { strategy := "global" } }

def web : ServiceConfig := { image := "web:1", replicas := 2 }

def runsOne (serviceName image hash : String) : NodeState :=
  mapOf [(serviceName, some
    { name := serviceName, image := image, replicas := 1, configHash := hash,
      runtimeID := s!"shop/production/{serviceName}",
      configSnapshot := some { image := image } })]

def bothRun (serviceName image hash : String) : GoMap NodeState :=
  mapOf [("n1", runsOne serviceName image hash), ("n2", runsOne serviceName image hash)]

/-- The agent runs on both nodes as planned, and the next plan updates it from two replicas to one.
-/
theorem global_service_never_converges :
    validateServiceReplicas "agent" agent = .ok { agent with replicas := 1 } ∧
      twoNodes.Plans "agent" { agent with replicas := 1 } [⟨"n1", 1⟩, ⟨"n2", 2⟩] ∧
      Deployed textHash twoNodes "agent" { agent with
        replicas := 1 } "agent:1/1" [⟨"n1", 1⟩, ⟨"n2", 2⟩] (bothRun "agent" "agent:1" "agent:1/1") ∧
      ¬ (computePlan textHash "shop" "production" (mapOf [("agent", { agent with replicas := 1 })])
          (aggregateActualStateByServer (bothRun "agent" "agent:1" "agent:1/1"))).Unchanged
            "agent" := by
  refine ⟨rfl, by decide +kernel,
    ⟨by decide +kernel, by decide +kernel, by decide +kernel⟩, by decide +kernel⟩

/-- Two replicas of `web` spread over both nodes converge. -/
theorem deployed_web_unchanged : (computePlan textHash "shop" "production" (mapOf [("web", web)])
      (aggregateActualStateByServer (bothRun "web" "web:1" "web:1/2"))).Unchanged "web" :=
  (deployed_service_unchanged_iff textHash twoNodes "web" "web:1/2" web web (mapOf [("web", web)])
    [⟨"n1", 1⟩, ⟨"n2", 2⟩] (bothRun "web" "web:1" "web:1/2") rfl rfl rfl rfl (by decide +kernel)
    (by decide) (by decide +kernel) (by decide)
    ⟨by decide +kernel, by decide +kernel, by decide +kernel⟩).mpr (by decide +kernel)

end Convergence
