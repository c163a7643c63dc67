import Tako.GoMaps
import Tako.NodeIdentity

/-! # Project configuration: servers, environments, services and placement

The parts of `tako.yaml` that decide where a service runs and whether it has changed. Fields
that only the configuration fingerprint reads are kept together in `rest`.
-/
namespace DeployConfig

open GoPrelude GoMaps NodeIdentity

structure ServerConfig where
  labels : StringMap := ∅
  nodeID : String := ""
  lifecycle : Lifecycle := .other ""
  roles : List String := []

def ServerConfig.schedulable (s : ServerConfig) : Bool :=
  s.lifecycle.text == "" || s.lifecycle == .schedulable

def ServerConfig.hasPlatformRole (s : ServerConfig) (role : String) : Bool :=
  s.roles.isEmpty || s.roles.contains role

/-- `servers[name]`, the zero value for an unknown name. -/
def serverOf (servers : GoMap ServerConfig) (name : String) : ServerConfig :=
  (servers.lookup name).getD {}

structure PlacementConfig where
  strategy : String := ""
  (servers constraints preferences : List String := [])
  deriving DecidableEq

inductive Strategy where
  | unset
  | spread
  | any
  | global
  | pinned
  deriving DecidableEq

def Strategy.text : Strategy → String
  | .unset => ""
  | .spread => "spread"
  | .any => "any"
  | .global => "global"
  | .pinned => "pinned"

def Strategy.ofText? (text : String) : Option Strategy :=
  [Strategy.unset, .spread, .any, .global, .pinned].find? fun strategy =>
    strategy.text == trimSpace text

theorem Strategy.ofText?_eq_some {text : String} :
    Strategy.ofText? text = some strategy ↔ trimSpace text = strategy.text := by
  constructor
  · intro h
    have := List.find?_some h
    exact (beq_iff_eq.mp this).symm
  · intro h
    rw [Strategy.ofText?, h]
    cases strategy <;> decide

structure DynamicDomainsConfig where
  enabled : Option Bool := none
  ask : String := ""
  deriving DecidableEq

structure TLSConfig where
  (mode provider : String := "")
  staging : Bool := false
  deriving DecidableEq

structure ProxyConfig where
  domain : String := ""
  domains : List String := []
  (host visibility cdn : String := "")
  redirectFrom : List String := []
  tls : TLSConfig := {}
  dynamicDomains : Option DynamicDomainsConfig := none
  deriving DecidableEq

inductive ServiceKind where
  | unset
  | service
  | job
  | run
  deriving DecidableEq

structure ServiceConfig where
  kind : ServiceKind := .unset
  (image imageFrom build : String := "")
  port : ℤ := 0
  env : StringMap := ∅
  volumes : List String := []
  proxy : Option ProxyConfig := none
  replicas : ℤ := 0
  persistent : Bool := false
  placement : Option PlacementConfig := none
  (schedule timezone : String := "")
  /-- The other fields of the fingerprint, by name and text. -/
  rest : List (String × String) := []

def ServiceConfig.isJob (s : ServiceConfig) : Bool := s.kind == .job

def ServiceConfig.isRun (s : ServiceConfig) : Bool := s.kind == .run

/-- `service.Placement != nil && strings.TrimSpace(service.Placement.Strategy) == "global"`. -/
def ServiceConfig.isGlobal (s : ServiceConfig) : Bool :=
  match s.placement with
  | none => false
  | some placement => trimSpace placement.strategy == Strategy.global.text

structure ServerSelector where
  labels : StringMap := ∅
  any : Bool := false

structure EnvironmentConfig where
  servers : List String := []
  serverSelector : Option ServerSelector := none
  services : GoMap ServiceConfig := ∅

structure Config where
  project : String
  servers : GoMap ServerConfig := ∅
  environments : GoMap EnvironmentConfig := ∅

/-- The default environment; where Go returns the first entry of a map in its random order,
the model takes the first entry. -/
def Config.getDefaultEnvironment (c : Config) : String :=
  match c.environments.keys with
  | [] => ""
  | [name] => name
  | name :: _ => if "production" ∈ c.environments then "production" else name

def Config.getEnvironment (c : Config) (name : String) : Except String EnvironmentConfig := do
  let resolved := if name = "" then c.getDefaultEnvironment else name
  require (resolved ≠ "") "no environments configured"
  match c.environments.lookup resolved with
  | some env => .ok env
  | none => .error s!"environment '{resolved}' not found"

def Config.getServices (c : Config) (envName : String) : Except String (GoMap ServiceConfig) := do
  let env ← c.getEnvironment envName
  .ok env.services

def matchesLabels (serverLabels selectorLabels : StringMap) : Bool :=
  selectorLabels.entries.all fun entry => (serverLabels.lookup entry.1).getD "" == entry.2

def Config.getEnvironmentServers (c : Config) (envName : String) : Except String (List String) := do
  let env ← c.getEnvironment envName
  if env.servers ≠ [] then .ok env.servers
  else
    match env.serverSelector with
    | none => .error s!"environment '{envName}' has no servers configured"
    | some selector =>
      if selector.any then .ok (sortStrings c.servers.keys)
      else
        let matched := c.servers.keys.filter fun name =>
          matchesLabels (serverOf c.servers name).labels selector.labels
        if matched = [] then
          .error s!"no servers match the selector labels for environment '{envName}'"
        else .ok (sortStrings matched)

/-- `strings.Split(text, "==")`. -/
def splitEquals (current : List Char) : List Char → List (List Char)
  | '=' :: '=' :: rest => current :: splitEquals [] rest
  | c :: rest => splitEquals (current ++ [c]) rest
  | [] => [current]

def hasControlChars (value : String) : Bool :=
  (chars value).any fun c => c.toNat < 32 || c.toNat == 127

def trimPlacementConstraintValue (value : String) : String :=
  let text := chars value
  let quotes := [Char.ofNat 39, '"']
  if 2 ≤ text.length ∧ quotes.any (fun q => text.head? == some q && text.getLast? == some q) then
    String.ofList (text.drop 1).dropLast
  else value

def labelPrefix : String := "node.labels."

def unsupportedConstraint (original : String) : String :=
  s!"unsupported placement constraint {quoted original}; supported form is " ++
    "node.labels.<key>==<value>"

def parsePlacementConstraint (original : String) : Except String (String × String) := do
  let constraint := trimSpace original
  require (constraint ≠ "") "placement constraint must not be empty"
  match splitEquals [] (chars constraint) with
  | [left, right] =>
    let left := trimChars left
    let value := trimPlacementConstraintValue (String.ofList (trimChars right))
    require ((chars labelPrefix).isPrefixOf left = true) (unsupportedConstraint original)
    let key := String.ofList (trimChars (left.drop labelPrefix.length))
    require (¬ (key = "" ∨ value = ""))
      s!"placement constraint {quoted original} must include a label key and value"
    require (¬ (hasControlChars key ∨ hasControlChars value))
      s!"placement constraint {quoted original} contains unsupported characters"
    .ok (key, value)
  | _ => .error (unsupportedConstraint original)

def serverMatchesPlacementConstraints (server : ServerConfig) : List String → Except String Bool
  | [] => .ok true
  | constraint :: rest => do
    let (key, want) ← parsePlacementConstraint constraint
    if (server.labels.lookup key).getD "" = want then serverMatchesPlacementConstraints server rest
    else .ok false

/-- The switch over the strategy that `ResolvePlacementTargets` and `ValidatePlacementConfig`
share: placement servers are for pinned services, which need some. -/
def checkStrategy (placement : PlacementConfig) : Except String Strategy :=
  match Strategy.ofText? placement.strategy with
  | none => .error s!"unknown placement strategy: {placement.strategy}"
  | some .pinned => do
    require (placement.servers ≠ []) "pinned placement requires servers"
    .ok .pinned
  | some strategy => do
    require (placement.servers = []) "placement servers require strategy pinned"
    .ok strategy

def validatePlacementConfig (placement : Option PlacementConfig) : Except String Unit :=
  match placement with
  | none => .ok ()
  | some placement => do
    let _ ← checkStrategy placement
    require (placement.preferences = []) "placement preferences are not supported yet"
    placement.constraints.forM fun constraint => do
      let _ ← parsePlacementConstraint constraint
      .ok ()

def validateTargetsFrom (servers : GoMap ServerConfig) (environmentServers : List String)
    (environment : String) (seen : List String) : List String → Except String Unit
  | [] => .ok ()
  | target :: rest => do
    require (target ∉ seen) s!"placement target {target} is listed more than once"
    require (target ∈ environmentServers)
      (s!"placement target {target} is outside the selected takod node set for environment " ++
        s!"{environment}")
    require (target ∈ servers) s!"placement target {target} is not defined in servers"
    validateTargetsFrom servers environmentServers environment (target :: seen) rest

def validatePlacementTargets (targets : List String) (servers : GoMap ServerConfig)
    (environmentServers : List String) (environment : String) : Except String Unit :=
  validateTargetsFrom servers environmentServers environment [] targets

def matchingTargets (servers : GoMap ServerConfig) (constraints : List String) :
    List String → Except String (List String)
  | [] => .ok []
  | target :: rest => do
    let accepted ← serverMatchesPlacementConstraints (serverOf servers target) constraints
    let others ← matchingTargets servers constraints rest
    .ok (if accepted then target :: others else others)

section

variable (placement : Option PlacementConfig)

section

variable (servers : GoMap ServerConfig) (environmentServers : List String) (environment : String)

def filterConstraints (targets : List String) : Except String (List String) :=
  match placement with
  | none => .ok targets
  | some placement =>
    if placement.constraints = [] then .ok targets
    else do
      let filtered ← matchingTargets servers placement.constraints targets
      require (filtered ≠ [])
        s!"placement constraints match no servers in environment {environment}"
      .ok filtered

def strategyTargets : Except String (List String) :=
  match placement with
  | none => .ok environmentServers
  | some placement => do
    let strategy ← checkStrategy placement
    require (placement.preferences = []) "placement preferences are not supported yet"
    .ok (if strategy = .pinned then placement.servers else environmentServers)

def resolvePlacementTargets : Except String (List String) := do
  require (environmentServers ≠ []) s!"environment {environment} has no target servers"
  let targets ← strategyTargets placement environmentServers
  validatePlacementTargets targets servers environmentServers environment
  filterConstraints placement servers environment targets

end

end

def accepts (server : ServerConfig) (constraints : List String) : Bool :=
  match serverMatchesPlacementConstraints server constraints with
  | .ok accepted => accepted
  | .error _ => false

variable {service : ServiceConfig}

theorem mem_matchingTargets (h : matchingTargets servers constraints targets = .ok filtered)
    (name : String) :
    name ∈ filtered ↔ name ∈ targets ∧ accepts (serverOf servers name) constraints = true := by
  induction targets generalizing filtered with
  | nil =>
    cases h
    simp
  | cons target rest ih =>
    simp only [matchingTargets, bind_eq_ok] at h
    obtain ⟨accepted, hacc, others, hothers, hfiltered⟩ := h
    cases hfiltered
    have htarget : accepts (serverOf servers target) constraints = accepted := by
      simp [accepts, hacc]
    by_cases hname : name = target
    · subst hname
      cases accepted <;> simp [ih hothers, htarget]
    · cases accepted <;> simp [ih hothers, hname]

theorem mem_filterConstraints
    (h : filterConstraints placement servers environment targets = .ok filtered) (name : String) :
    name ∈ filtered ↔ name ∈ targets ∧
      accepts (serverOf servers name) ((placement.map PlacementConfig.constraints).getD []) =
        true := by
  cases placement with
  | none =>
    cases h
    simp [accepts, serverMatchesPlacementConstraints]
  | some =>
    unfold filterConstraints at h
    dsimp only at h
    split_ifs at h with hempty
    · cases h
      simp [hempty, accepts, serverMatchesPlacementConstraints]
    · simp only [bind_eq_ok, require_eq_ok, exists_and_left, exists_const] at h
      obtain ⟨matching, hmatching, -, hfiltered⟩ := h
      cases hfiltered
      exact mem_matchingTargets hmatching name

theorem strategyTargets_global (hglobal : trimSpace placement.strategy = Strategy.global.text)
    (h : strategyTargets (some placement) environmentServers = .ok targets) :
    targets = environmentServers := by
  have hstrategy : checkStrategy placement = (do
      require (placement.servers = []) "placement servers require strategy pinned"
      .ok Strategy.global) := by
    unfold checkStrategy
    rw [Strategy.ofText?_eq_some.mpr hglobal]
  simp only [strategyTargets, hstrategy, bind_eq_ok, require_eq_ok, exists_and_left,
    exists_const] at h
  obtain ⟨strategy, ⟨-, hs⟩, -, htgts⟩ := h
  cases hs
  cases htgts
  rfl

theorem mem_resolvePlacementTargets_global (hglobal : service.isGlobal = true)
    (h : resolvePlacementTargets service.placement servers environmentServers environment =
      .ok permitted)
    (name : String) :
    name ∈ permitted ↔ name ∈ environmentServers ∧
      accepts (serverOf servers name)
        ((service.placement.map PlacementConfig.constraints).getD []) = true := by
  simp only [resolvePlacementTargets, bind_eq_ok, require_eq_ok, exists_and_left, exists_const] at h
  obtain ⟨-, targets, htgts, _, -, hfiltered⟩ := h
  rw [mem_filterConstraints hfiltered]
  cases hplacement : service.placement with
  | none => simp [ServiceConfig.isGlobal, hplacement] at hglobal
  | some =>
    simp only [ServiceConfig.isGlobal, hplacement, beq_iff_eq] at hglobal
    rw [hplacement] at htgts
    rw [strategyTargets_global hglobal htgts]

/-! ## Validation of replicas and placement

The lines of the service validator that read or set the fields above. -/

def validateServiceReplicas (name : String) (service : ServiceConfig) :
    Except String ServiceConfig := do
  let service := if service.replicas = 0 then { service with replicas := 1 } else service
  require (0 ≤ service.replicas) s!"service {name}: replicas cannot be negative"
  require (¬ (service.persistent ∧ 1 < service.replicas))
    (s!"service {name}: persistent services do not support replicas > 1 with node-local " ++
      "volumes; keep replicas at 1, use placement.strategy global for one independent " ++
      "instance per node, or move state to external/clustered storage before scaling app " ++
      "containers")
  wrap (fun cause => s!"service {name}: {cause}") (validatePlacementConfig service.placement)
  .ok service

theorem validateServiceReplicas_pos (h : validateServiceReplicas name service = .ok accepted) :
    1 ≤ accepted.replicas := by
  simp only [validateServiceReplicas, bind_eq_ok, require_eq_ok, exists_and_left, exists_const] at h
  obtain ⟨hnonneg, -, _, -, hacc⟩ := h
  cases hacc
  split_ifs at hnonneg ⊢ with hzero
  · exact le_rfl
  · omega

end DeployConfig
