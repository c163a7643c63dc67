import Mathlib.Algebra.Ring.Nat
import Tako.DockerEngine
import Tako.OperationLeases
import Tako.ResourceNames

/-! # Reconciling one service on a node

The node agent removes the containers of the requested revision and starts the requested ones; when
a start fails it removes those it has started. A step outside Docker takes an outcome of the
schedule like a command. What Docker prints is read up to `defaultCommandOutputMaxBytes`.
-/
namespace NodeReconcile

open GoPrelude GoMaps
open SliceOrder (modifyFirst)
open ResourceNames (hasPrefix shortHash)
open OperationLeases (isSafeProjectName isSafeRuntimeName hasControlChars)
open DurablePrograms DockerEngine

structure NetworkAttachmentSpec where
  network : String
  aliases : List String
  create : Bool
  labels : StringMap

structure ContainerSpec where
  name : String
  (networkAliases publishes : List String)
  labels : StringMap

structure HealthSpec where
  (command path : String)
  (port waitAttempts : ℕ)
  smokePath : String

structure ReconcileServiceRequest where
  (project environment service revision deployStrategy image : String)
  pullImage : Bool
  (network networkAlias : String)
  networkAttachments : List NetworkAttachmentSpec
  envFileContent : String
  labels : StringMap
  fileSetID : String
  containers : List ContainerSpec
  health : Option HealthSpec

structure ReconcileServiceResponse where
  (project environment service : String)
  containers : List String
  removedContainers : ℕ
  deriving DecidableEq

def normalizeTakodDeployStrategy (strategy : String) : String :=
  if trimSpace strategy = "" then "recreate"
  else if trimSpace strategy ∈ ["recreate", "rolling", "blue_green"] then trimSpace strategy
  else ""

def takodDeployStrategyUsesRevisionScope (strategy : String) : Bool :=
  strategy == "rolling" || strategy == "blue_green"

def isSafeServiceName (name : String) : Bool :=
  match chars name with
  | [] => false
  | first :: _ =>
    decide (name.utf8ByteSize ≤ 63) && isLowerLetter first &&
      (chars name).all fun c => isLowerLetter c || isDigit c || c == '-' || c == '_'

def isSafeContainerName (name : String) : Bool :=
  match chars name with
  | [] => false
  | first :: _ =>
    decide (name.utf8ByteSize ≤ 128) &&
      (isLowerLetter first || isUpperLetter first || isDigit first) &&
      (chars name).all fun c => isLowerLetter c || isUpperLetter c || isDigit c || c == '-' ||
        c == '_' || c == '.'

/-- `strconv.ParseBool` accepts the text. -/
def isBool (value : String) : Bool :=
  value ∈ ["1", "t", "T", "TRUE", "true", "True", "0", "f", "F", "FALSE", "false", "False"]

/-- `strconv.Atoi`. -/
def atoi (value : String) : Option ℤ :=
  let (negative, digits) :=
    match chars value with
    | '-' :: rest => (true, rest)
    | '+' :: rest => (false, rest)
    | rest => (false, rest)
  let n := digits.foldl (fun n c => 10 * n + (c.toNat - '0'.toNat)) 0
  if digits.isEmpty || !digits.all isDigit then none
  else if negative then if n ≤ 2 ^ 63 then some (-n) else none
  else if n < 2 ^ 63 then some n else none

/-- `hex.DecodeString` accepts the text and gives 32 bytes. -/
def isHash (value : String) : Bool :=
  decide (value.utf8ByteSize = 64) &&
    (chars value).all fun c => isDigit c || ('a' ≤ c && c ≤ 'f') || ('A' ≤ c && c ≤ 'F')

def checkEntries (check : String → String → Except String Unit) :
    List (Sigma fun _ : String => String) → Except String Unit
  | [] => .ok ()
  | entry :: rest => do
    check entry.1 entry.2
    checkEntries check rest

theorem checkEntries_ok {m : StringMap} (h : checkEntries check m.entries = .ok ())
    (hkey : m.lookup key = some value) : check key value = .ok () := by
  have hall : ∀ entries, checkEntries check entries = .ok () →
      ∀ entry ∈ entries, check entry.1 entry.2 = .ok () := by
    intro entries
    induction entries with
    | nil => simp
    | cons entry rest ih =>
      intro hcheck
      simp only [checkEntries, bind_eq_ok] at hcheck
      obtain ⟨_, hfirst, hrest⟩ := hcheck
      intro other hother
      rcases List.mem_cons.mp hother with rfl | hother
      · exact hfirst
      · exact ih hrest other hother
  exact hall _ h ⟨key, value⟩ (AList.mem_lookup_iff.mp hkey)

section Validation

-- the hash behind `runtimeid`, and `strconv.Quote`
variable (sha256Hex : String → String) (quoted : String → String)

def serviceIdentity (project env service : String) : String :=
  String.ofList (shortHash sha256Hex ["service", project, env, service])

def validateDockerLabels (labels : StringMap) : Except String Unit := do
  require (labels.entries.length ≤ 256) "too many labels"
  checkEntries (fun key value =>
    require (trimSpace key ≠ "" ∧ hasControlChars key = false ∧ hasControlChars value = false)
      (quoted key))
    labels.entries
  require ((labels.entries.map fun entry => entry.1.utf8ByteSize + entry.2.utf8ByteSize).sum ≤
    64 * 1024) "labels are too large"

section

variable (req : ReconcileServiceRequest)

def checkRequestRuntimeLabel (key value : String) : Except String Unit :=
  if hasPrefix key "tako." = false then .ok ()
  else if key = "tako.runtimeId" then
    require (value = serviceIdentity sha256Hex req.project req.environment req.service)
      "runtime identity label does not match request"
  else if key = "tako.persistent" then require (isBool value) "invalid persistent runtime label"
  else if key = "tako.configHash" then require (isHash value) "invalid config hash runtime label"
  else .error s!"request label {quoted key} uses reserved tako. prefix"

def validateRequestRuntimeLabels : Except String Unit :=
  checkEntries (checkRequestRuntimeLabel sha256Hex quoted req) req.labels.entries

def checkContainerRuntimeLabel (key value : String) : Except String Unit :=
  if hasPrefix key "tako." = false then .ok ()
  else if key = "tako.revision" then
    require (value = req.revision) "container revision label does not match request"
  else if key = "tako.deployStrategy" then
    require (normalizeTakodDeployStrategy value = normalizeTakodDeployStrategy req.deployStrategy)
      "container deploy strategy label does not match request"
  else if key = "tako.slot" then require (∃ slot ∈ atoi value, 0 < slot)
    "invalid container slot label"
  else if key = "tako.active" then require (isBool value) "invalid container active label"
  else .error s!"container label {quoted key} uses reserved tako. prefix"

def validateContainerRuntimeLabels (labels : StringMap) : Except String Unit :=
  checkEntries (checkContainerRuntimeLabel quoted req) labels.entries

end

def validateAttachments : List NetworkAttachmentSpec → Except String Unit
  | [] => .ok ()
  | attachment :: rest => do
    require (isSafeRuntimeName attachment.network) "invalid network attachment"
    require (attachment.aliases.all isSafeRuntimeName) "invalid network attachment alias"
    wrap (fun cause => s!"invalid network attachment label: {cause}")
      (validateDockerLabels quoted attachment.labels)
    validateAttachments rest

def revisionLabel (labels : StringMap) : String := (labels.lookup "tako.revision").getD ""

def validateContainers (req : ReconcileServiceRequest) : List ContainerSpec → Except String Unit
  | [] => .ok ()
  | container :: rest => do
    require (isSafeContainerName container.name) "invalid container name"
    require (container.networkAliases.all isSafeRuntimeName) "invalid container network alias"
    require (container.publishes.any hasControlChars = false) "invalid publish value"
    wrap (fun cause => s!"invalid container label: {cause}")
      (validateDockerLabels quoted container.labels)
    validateContainerRuntimeLabels quoted req container.labels
    whenever (takodDeployStrategyUsesRevisionScope
      (normalizeTakodDeployStrategy req.deployStrategy))
      (require (revisionLabel container.labels = "" ∨ revisionLabel container.labels = req.revision)
        s!"container {container.name} revision label does not match request revision")
    validateContainers req rest

def validateReconcileServiceRequest (req : ReconcileServiceRequest) : Except String Unit := do
  require (trimSpace req.project ≠ "") "project is required"
  require (trimSpace req.environment ≠ "") "environment is required"
  require (trimSpace req.service ≠ "") "service is required"
  require (trimSpace req.image ≠ "") "image is required"
  require (trimSpace req.network ≠ "") "network is required"
  require (isSafeProjectName req.project) "invalid project name"
  require (isSafeRuntimeName req.environment) "invalid environment name"
  require (isSafeServiceName req.service) "invalid service name"
  require (normalizeTakodDeployStrategy req.deployStrategy ≠ "") "invalid deploy strategy"
  require (req.revision = "" ∨ isSafeRuntimeName req.revision) "invalid revision"
  require (takodDeployStrategyUsesRevisionScope (normalizeTakodDeployStrategy req.deployStrategy) =
    false ∨
      req.revision ≠ "")
    s!"revision is required for {normalizeTakodDeployStrategy req.deployStrategy} deploy strategy"
  require (isSafeRuntimeName req.network) "invalid network name"
  require (req.networkAlias = "" ∨ isSafeRuntimeName req.networkAlias) "invalid network alias"
  validateAttachments quoted req.networkAttachments
  require (req.envFileContent.utf8ByteSize ≤ 2 ^ 20) "envFileContent exceeds 1 MiB"
  validateContainers quoted req req.containers
  wrap (fun cause => s!"invalid label: {cause}") (validateDockerLabels quoted req.labels)
  validateRequestRuntimeLabels sha256Hex quoted req

end Validation

/-! ## Networks and health

Nothing here changes the set of containers. -/

section Docker

variable (schedule : ℕ → Outcome)

def ensureDockerNetworkWithLabels (network : String) : Durable Engine Unit := do
  match ← ask schedule with
  | .ok _ => pure ()
  | .error _ => do
    let _ ← (query schedule).mapError fun cause =>
      s!"failed to ensure docker network {network}: {cause}"
    pure ()

def prepareNetworkAttachment (attachment : NetworkAttachmentSpec) : Durable Engine Unit :=
  if attachment.create then ensureDockerNetworkWithLabels schedule attachment.network
  else do
    let _ ← (query schedule).mapError fun _ =>
      s!"import network {attachment.network} does not exist; deploy the exported provider " ++
        "service first"
    pure ()

def prepareNetworkAttachments : List NetworkAttachmentSpec → Durable Engine Unit
  | [] => pure ()
  | attachment :: rest => do
    prepareNetworkAttachment schedule attachment
    prepareNetworkAttachments rest

def connectContainerNetworks (containerName : String) : List NetworkAttachmentSpec →
    Durable Engine Unit
  | [] => pure ()
  | attachment :: rest => do
    let _ ← (query schedule).mapError fun cause =>
      s!"failed to connect container {containerName} to network {attachment.network}: {cause}"
    connectContainerNetworks containerName rest

def addAliases (aliases : List String) : List String → List String
  | [] => aliases
  | other :: rest =>
    if other = "" ∨ other ∈ aliases then addAliases aliases rest
      else addAliases (aliases ++ [other]) rest

def mergeNetworkAttachments (attachments : List NetworkAttachmentSpec) :
    List NetworkAttachmentSpec :=
  attachments.foldl (fun merged attachment =>
    if attachment.network = "" then merged
    else if merged.any (fun existing => existing.network == attachment.network) then
      modifyFirst (fun existing => existing.network == attachment.network) (fun existing =>
        { existing with
          create := existing.create || attachment.create
          labels := attachment.labels ∪ existing.labels
          aliases := addAliases existing.aliases attachment.aliases }) merged
    else merged ++ [{ attachment with aliases := addAliases [] attachment.aliases }]) []

def healthSpecHasTarget : Option HealthSpec → Bool
  | none => false
  | some health => health.command != "" || health.path != "" || decide (0 < health.port) ||
      health.smokePath != ""

def containerHealthWaitAttempts : Option HealthSpec → ℕ
  | none => 30
  | some health => if 0 < health.waitAttempts then health.waitAttempts else 30

/-- The loop of `waitForContainerHealthy`, with the attempts left and the last error. -/
def waitLoop (containerName : String) (health : Option HealthSpec) : ℕ → String →
    Durable Engine Unit
  | 0, lastErr => do
    let logs ← ask schedule
    let text := logs.toOption.getD ""
    let attempts := containerHealthWaitAttempts health
    Durable.fail (if trimSpace text ≠ "" then
        (s!"health check timeout for {containerName} after {attempts} attempts: {lastErr}, last " ++
          s!"logs:\n{text}")
      else s!"health check timeout for {containerName} after {attempts} attempts: {lastErr}")
  | attempts + 1, _ => do
    let running ← (query schedule).mapError fun cause =>
      s!"failed to inspect container {containerName}: {cause}"
    if trimSpace running ≠ "true" then do
      let _ ← query schedule
      waitLoop containerName health attempts "container is not running"
    else if healthSpecHasTarget health = false then pure ()
    else do
      match ← ask schedule with
      | .ok _ => pure ()
      | .error cause => do
        let _ ← query schedule
        waitLoop containerName health attempts cause

def waitForContainerHealthy (containerName : String) (health : Option HealthSpec) :
    Durable Engine Unit :=
  waitLoop schedule containerName health (containerHealthWaitAttempts health) ""

def outside : Durable Engine Unit := do
  let _ ← query schedule
  pure ()

def ofService (project env service : String) (c : Container) : Bool :=
  c.labels.lookup "tako.project" == some project && c.labels.lookup "tako.environment" ==
    some env && c.labels.lookup "tako.service" == some service

def ofRevision (req : ReconcileServiceRequest) (c : Container) : Bool :=
  ofService req.project req.environment req.service c &&
    c.labels.lookup "tako.revision" == some req.revision

def defaultCommandOutputMaxBytes : ℕ := 2 ^ 20

/-- The words of a listing, thirteen bytes a line. When the output is cut, words of the notice
that takes the place of the rest follow, and no container answers to them. -/
def listedWords (ids : List ℕ) : List (Option ℕ) :=
  if 13 * ids.length ≤ defaultCommandOutputMaxBytes then ids.map some
  else (ids.take (defaultCommandOutputMaxBytes / 13)).map some ++ [none]

-- the size in bytes of the JSON text of a label map
variable (jsonSize : StringMap → ℕ)

/-- The text of the labels and its newline fit into the output. -/
def Legible (labels : StringMap) : Prop := jsonSize labels + 1 ≤ defaultCommandOutputMaxBytes
  deriving Decidable

/-- Text that is cut is no JSON value; its error is dropped and the map stays empty. -/
def parseDockerLabels (labels : StringMap) : StringMap :=
  if Legible jsonSize labels then labels else ∅

def selectByRevision (shouldRemove : String → Bool) : List (Option ℕ) → Durable Engine (List ℕ)
  | [] => pure []
  | none :: _ => Durable.fail "failed to inspect old service container labels: No such object"
  | some id :: rest => do
    let labels ← (inspectLabels schedule id).mapError fun cause =>
      s!"failed to inspect old service container {id} labels: {cause}"
    let filtered ← selectByRevision shouldRemove rest
    pure (if shouldRemove (revisionLabel (parseDockerLabels jsonSize labels)) then id :: filtered
      else filtered)

def removeContainerIDs (ids : List ℕ) : Durable Engine ℕ :=
  if ids = [] then pure 0
  else do
    (remove schedule fun c => decide (c.id ∈ ids)).mapError fun cause =>
      s!"failed to remove old service containers: {cause}"
    pure ids.length

def listServiceContainers (project env service : String) : Durable Engine (List (Option ℕ)) := do
  let ids ← (listIDs schedule (ofService project env service)).mapError fun cause =>
    s!"failed to list old service containers: {cause}"
  pure (listedWords ids)

def removeServiceContainersWithRevisionFilter (project env service : String)
    (shouldRemove : String → Bool) : Durable Engine ℕ := do
  let ids ← listServiceContainers schedule project env service
  let filtered ← selectByRevision schedule jsonSize shouldRemove ids
  removeContainerIDs schedule filtered

def removeServiceContainersMatchingRevision (project env service revision : String) :
    Durable Engine ℕ :=
  if revision = "" then pure 0
  else removeServiceContainersWithRevisionFilter schedule jsonSize project env service
    fun containerRevision =>
    containerRevision == revision

def removeServiceContainersKeepingRevision (project env service keepRevision : String) :
    Durable Engine ℕ :=
  if keepRevision ≠ "" then
    removeServiceContainersWithRevisionFilter schedule jsonSize project env service
      fun containerRevision =>
      containerRevision != keepRevision
  else do
    let ids ← listServiceContainers schedule project env service
    removeContainerIDs schedule (ids.filterMap id)

def removeServiceContainers (project env service : String) : Durable Engine ℕ :=
  removeServiceContainersKeepingRevision schedule jsonSize project env service ""

section

variable (req : ReconcileServiceRequest)

def removeServiceContainersForReconcile (strategy : String) : Durable Engine ℕ :=
  if takodDeployStrategyUsesRevisionScope strategy then
    removeServiceContainersMatchingRevision schedule jsonSize req.project req.environment
      req.service req.revision
  else removeServiceContainers schedule jsonSize req.project req.environment req.service

def serviceLabels (container : ContainerSpec) : StringMap :=
  let labels : StringMap := mapOf [("tako.project", req.project),
    ("tako.environment", req.environment), ("tako.service", req.service), ("tako.runtime", "takod")]
  let labels := req.labels ∪ labels
  let labels := if req.deployStrategy ≠ "" then
    labels.insert "tako.deployStrategy" (normalizeTakodDeployStrategy req.deployStrategy) else
      labels
  let labels := if req.revision ≠ "" then labels.insert "tako.revision" req.revision else labels
  let labels := container.labels ∪ labels
  (((labels.insert "tako.project" req.project).insert "tako.environment" req.environment).insert
    "tako.service" req.service).insert "tako.runtime" "takod"

def labelArgs (container : ContainerSpec) : List String :=
  let labels := serviceLabels req container
  (sortStrings labels.keys).map fun key => labelFlag key ((labels.lookup key).getD "")

end

-- the labels of an image
variable (imageLabels : String → StringMap)

section

variable (req : ReconcileServiceRequest) (container : ContainerSpec)

def startedLabels : StringMap := startLabels (imageLabels req.image) (labelArgs req container)

def runServiceContainer : Durable Engine Unit :=
  (run schedule container.name (startedLabels imageLabels req container)).mapError fun cause =>
    s!"failed to start container {container.name}: {cause}"

end

def cleanupStartedContainers (containerNames : List String) : Durable Engine Unit :=
  if containerNames = [] then pure ()
  else (remove schedule fun c => decide (c.name ∈ containerNames)).mapError fun cause =>
    s!"failed to remove started containers: {cause}"

def orCleanUp (started : List String) (step : Durable Engine Unit) : Durable Engine Unit :=
  step.recover fun cause => do
    (cleanupStartedContainers schedule started).mapError fun cleanupErr =>
      s!"{cause}; additionally failed to clean up started containers: {cleanupErr}"
    Durable.fail cause

def startContainers (req : ReconcileServiceRequest) (attachments : List NetworkAttachmentSpec) :
    List String → List ContainerSpec → Durable Engine (List String)
  | started, [] => pure started
  | started, container :: rest => do
    orCleanUp schedule started (runServiceContainer schedule imageLabels req container)
    orCleanUp schedule (started ++ [container.name])
      (connectContainerNetworks schedule container.name attachments)
    orCleanUp schedule (started ++ [container.name])
      (waitForContainerHealthy schedule container.name req.health)
    startContainers req attachments (started ++ [container.name]) rest

/-- `prepareServiceFiles` or `ensureServiceFileSet`. -/
def provideServiceFiles (req : ReconcileServiceRequest) : Durable Engine Unit :=
  if req.fileSetID ≠ "" then outside schedule else pure ()

def pullServiceImage (req : ReconcileServiceRequest) : Durable Engine Unit :=
  if req.pullImage then do
    let _ ← (query schedule).mapError fun cause => s!"failed to pull image {req.image}: {cause}"
    pure ()
  else pure ()

variable (sha256Hex : String → String) (quoted : String → String)

def reconcileService (req : ReconcileServiceRequest) : Durable Engine ReconcileServiceResponse := do
  Durable.check fun _ => validateReconcileServiceRequest sha256Hex quoted req
  let deployStrategy := normalizeTakodDeployStrategy req.deployStrategy
  let attachments := mergeNetworkAttachments req.networkAttachments
  provideServiceFiles schedule req
  if req.containers = [] then do
    let removedContainers ← removeServiceContainersForReconcile schedule jsonSize req deployStrategy
    pure ⟨req.project, req.environment, req.service, [], removedContainers⟩
  else do
    ensureDockerNetworkWithLabels schedule req.network
    prepareNetworkAttachments schedule attachments
    outside schedule
    let removedContainers ← removeServiceContainersForReconcile schedule jsonSize req deployStrategy
    outside schedule
    pullServiceImage schedule req
    let started ← startContainers schedule imageLabels req attachments [] req.containers
    pure ⟨req.project, req.environment, req.service, started, removedContainers⟩

end Docker

end NodeReconcile
