import Tako.Reconciliation
import Tako.Runs

/-! # Deploy-time runs and the deployment history

Each deployment that has something to do is recorded twice, when it starts and when it ends, and
each save prunes the document to its newest entries. Deployments hold the environment's leases and
follow one another. `--force` is not given.
-/
namespace RunHistory

open List GoPrelude GoMaps NodeIdentity DeployConfig Reconciliation Runs SliceOrder AList

structure RunState where
  exitCode : ℤ
  deriving DecidableEq

structure ServiceState where
  kind : ServiceKind := .unset
  (name image : String)
  configHash : String := ""
  run : Option RunState := none
  deriving DecidableEq

structure DeploymentState where
  id : String
  timestamp : ℤ
  services : GoMap ServiceState

def DeploymentState.attempt (deployment : DeploymentState) (name : String) : Option ServiceState :=
  (deployment.services.lookup name).filter fun record => record.kind == .run

def maxHistoryEntries : ℕ := 50

/-- What the deployments of one environment share: its name, the fingerprints and the sort that
`pruneAndSortDeployments` calls, which is not stable. -/
structure Setting where
  fingerprints : Fingerprints
  (projectName environment : String)
  sortSlice : List DeploymentState → List DeploymentState
  sortSlice_perm : ∀ deployments, (sortSlice deployments).Perm deployments
  sortSlice_sorted : ∀ deployments, (sortSlice deployments).Pairwise fun a b =>
    b.timestamp ≤ a.timestamp

section History

variable (S : Setting)

section

variable (deployments : List DeploymentState)

def pruneAndSortDeployments (limit : ℕ) : List DeploymentState :=
  if 0 < limit ∧ limit < deployments.length then (S.sortSlice deployments).take limit
    else S.sortSlice deployments

/-- The entry with the ID of the deployment is replaced, or the deployment is appended. -/
def putDeployment (deployment : DeploymentState) : List DeploymentState :=
  if deployments.any (fun existing => existing.id == deployment.id) then
    modifyFirst (fun existing => existing.id == deployment.id) (fun _ => deployment) deployments
  else deployments ++ [deployment]

def updateHistory (deployment : DeploymentState) : List DeploymentState :=
  pruneAndSortDeployments S (putDeployment deployments deployment) maxHistoryEntries

end

/-- A save may fail without effect, or succeed on the node and be reported as failed. -/
inductive SaveOutcome where
  | saved
  | lost
  | unreported
  deriving DecidableEq

def saveDeployment (outcome : SaveOutcome) (deployments : List DeploymentState)
    (deployment : DeploymentState) : List DeploymentState :=
  match outcome with
  | .lost => deployments
  | .saved | .unreported => updateHistory S deployments deployment

end History

section

variable (actual : GoMap ActualService) (deployments : List DeploymentState) (name : String)

def newestFirst : List DeploymentState :=
  deployments.insertionSort fun a b => b.timestamp ≤ a.timestamp

/-- The newest attempt decides; a failed one does not fall back to an older success. -/
def completedRun : Option ServiceState :=
  match (newestFirst deployments).findSome? (fun deployment => deployment.attempt name) with
  | none => none
  | some record => if record.run = some ⟨0⟩ ∧ record.configHash ≠ "" then some record else none

def longRunning (current : Option ActualService) : Bool :=
  match current with
  | none => false
  | some current => !(current.configSnapshot.map ServiceConfig.isRun).getD false

def runHistoryActual (desired : ServiceConfig) : Option ActualService :=
  if desired.isRun ∧ longRunning (actual.lookup name) = false then
    (completedRun deployments name).map fun record =>
      { name := name, image := record.image, configHash := record.configHash,
        configSnapshot := some desired }
  else none

def addRunHistoryActual (planServices : GoMap ServiceConfig)
    (deployments : List DeploymentState) : GoMap ActualService :=
  fillFrom (runHistoryActual actual deployments) planServices.entries actual

def restField (service : ServiceConfig) (name : String) : String :=
  (service.rest.lookup name).getD ""

def sharedBuildHash (service : ServiceConfig) : String := restField service "sharedBuildHash"

def sharedBuildImageRefKey : String := "\x00build:" ++ name

end

section

variable (service : ServiceConfig)

def resolveRunImage (allServices : GoMap ServiceConfig) (imageRefs : StringMap) :
    Except String String :=
  let resolved (key kind : String) : Except String String :=
    let image := (imageRefs.lookup key).getD ""
    if image = "" then .error s!"imageFrom {kind} {quoted service.imageFrom} has no resolved image"
      else .ok image
  if service.image ≠ "" then .ok service.image
  else if sharedBuildHash service ≠ "" then
    resolved (sharedBuildImageRefKey service.imageFrom) "build"
  else if service.imageFrom ∈ allServices then resolved service.imageFrom "service"
  else .error s!"imageFrom service {quoted service.imageFrom} not found"

def withImage (image : String) : ServiceConfig := { service with image := image }

@[simp] theorem isRun_withImage : (withImage service image).isRun = service.isRun := rfl

end

def prepareRunPlanServices (services allServices : GoMap ServiceConfig) (imageRefs : StringMap) :
    Except String (GoMap ServiceConfig) :=
  collectFrom (fun name service =>
    if service.isRun = true then
      match resolveRunImage service allServices imageRefs with
      | .error cause => .error s!"run {name}: {cause}"
      | .ok image => .ok (some (withImage service image))
    else .ok none) services.entries services

section

variable (services : GoMap ServiceConfig) (actual : GoMap ActualService)

def hasRunServices : Bool := services.entries.any fun entry => entry.2.isRun

def ensureRunPrerequisitesCompleted (S : Setting) (target : String) (services : GoMap ServiceConfig)
    (deployments : List DeploymentState) : Except String Unit :=
  let completed := addRunHistoryActual ∅ services deployments
  match services.entries.find? (fun entry =>
    !((completed.lookup entry.1).map (fingerprintMatches S.fingerprints entry.2)).getD false) with
  | none => .ok ()
  | some entry => .error
      (s!"targeted service {target} requires deploy-time run {entry.1} to complete successfully " ++
      "for its current fingerprint; run a full deploy first")

def validateRunKindTransitions : Except String Unit :=
  match services.entries.find? (fun entry =>
    entry.2.isRun && longRunning (actual.lookup entry.1)) with
  | none => .ok ()
  | some entry => .error
      (s!"service {entry.1} cannot change directly from a long-running service to kind: run; " ++
      "remove and deploy the old service first, then add the run")

/-- How `RunDeployStepOnNodes` ends: before the command starts, or with its exit code. -/
inductive RunOutcome where
  | refused
  | ended (exitCode : ℤ) (streamFailed : Bool)
  deriving DecidableEq

def RunOutcome.state : RunOutcome → Option RunState
  | .refused => none
  | .ended exitCode _ => some ⟨exitCode⟩

def RunOutcome.ok : RunOutcome → Bool
  | .refused => false
  | .ended exitCode streamFailed => !streamFailed && exitCode == 0

structure ServiceOutcome where
  cancelled : Bool := false
  /-- What the files of the run hash to when they are sent; empty for none. -/
  filesHash : String := ""
  run : RunOutcome := .ended 0 false
  deployed : Bool := true
  deriving DecidableEq

structure Deployment where
  id : String
  timestamp : ℤ
  /-- The service given with `--service`, or empty. -/
  target : String := ""
  (services allServices : GoMap ServiceConfig)
  /-- `DefaultDeployImageRefs`, with the running image of a targeted run's source. -/
  imageRefs : StringMap
  actual : GoMap ActualService
  /-- The runs a targeted service depends on, with their images resolved. -/
  prerequisites : GoMap ServiceConfig := ∅
  /-- Another check before the first save refuses the deployment. -/
  refused : Bool := false
  started : SaveOutcome := .saved
  buildFails : Bool := false
  order : List String
  outcome : String → ServiceOutcome := fun _ => {}
  final : SaveOutcome := .saved

/-- `validateRunServiceKind`, as far as the deployment depends on it. -/
def Deployment.Validated (d : Deployment) : Prop :=
  ∀ entry ∈ d.services.entries, entry.2.isRun →
    entry.2.build = "" ∧ (entry.2.image = "" ↔ entry.2.imageFrom ≠ "")
  deriving Decidable

def filterActualStateForServices (services : GoMap ServiceConfig) : GoMap ActualService :=
  fillFrom (fun name (_ : ServiceConfig) => actual.lookup name) services.entries ∅

def buildBacked (service : ServiceConfig) : Bool :=
  service.build != "" || (sharedBuildHash service != "" && !service.isRun)

def hasBuildServices : Bool := services.entries.any fun entry => buildBacked entry.2

end

/-- `ServicesToDeployForPlan` without `--force`. -/
def servicesToDeployForPlan (plan : ReconciliationPlan) (services : GoMap ServiceConfig) :
    GoMap ServiceConfig :=
  fillFrom (fun name service =>
    if plan.changes.any (fun change => (change.type == .add || change.type == .update) &&
      change.serviceName == name) ∨
        buildBacked service then some service
    else none) services.entries ∅

section Deploy

variable (S : Setting)

section

variable (d : Deployment) (deployments : List DeploymentState)

def planDeployment : Except String ReconciliationPlan := do
  let planServices ← prepareRunPlanServices d.services d.allServices d.imageRefs
  let actual :=
    if hasRunServices planServices ∨ d.prerequisites.entries ≠ [] then
      addRunHistoryActual d.actual planServices deployments
    else d.actual
  ensureRunPrerequisitesCompleted S d.target d.prerequisites deployments
  validateRunKindTransitions planServices actual
  let planActual := if d.target ≠ "" then filterActualStateForServices actual d.services else actual
  .ok (computePlan S.fingerprints S.projectName S.environment planServices planActual)

def servicesToDeploy : Option (GoMap ServiceConfig) :=
  match planDeployment S d deployments with
  | .error _ => none
  | .ok plan =>
    if d.refused ∨ (plan.isEmpty ∧ hasBuildServices d.services = false) then none
    else some (servicesToDeployForPlan plan d.services)

end

def withFilesContentHash (service : ServiceConfig) (hash : String) : ServiceConfig :=
  if hash = "" then service
  else
    { service with
      rest :=
        if (service.rest.lookup "filesContentHash").isSome then
          service.rest.map fun field => if field.1 = "filesContentHash" then (field.1, hash)
            else field
        else service.rest ++ [("filesContentHash", hash)] }

def runServiceFingerprint (service : ServiceConfig) (resolvedImage : String) : String :=
  (S.fingerprints.configHash (withImage service resolvedImage)).getD ""

def runHistoryServiceState (name : String) (service : ServiceConfig) (image : String)
    (result : Option RunState) : ServiceState :=
  { kind := .run, name := name, image := image, configHash := runServiceFingerprint S service image,
    run := result }

/-- The loop over the services in dependency order; it stops at the first failure. -/
def deployServices (d : Deployment) (selected : GoMap ServiceConfig) :
    List String → GoMap ServiceState → GoMap ServiceState
  | [], records => records
  | name :: rest, records =>
    match selected.lookup name with
    | none => deployServices d selected rest records
    | some service =>
      let outcome := d.outcome name
      if outcome.cancelled then records
      else if service.isRun then
        match resolveRunImage service d.allServices d.imageRefs with
        | .error _ => records
        | .ok image =>
          let executed := withFilesContentHash service outcome.filesHash
          let records := records.insert name
            (runHistoryServiceState S name executed image outcome.run.state)
          if outcome.run.ok then deployServices d selected rest records else records
      else if outcome.deployed then
        deployServices d selected rest
          (records.insert name { name := name, image := (d.imageRefs.lookup name).getD "" })
      else records

section

variable (d : Deployment) (deployments : List DeploymentState)

def deployedServices : GoMap ServiceState :=
  match servicesToDeploy S d deployments with
  | none => ∅
  | some selected =>
    if d.started = .saved ∧ d.buildFails = false then deployServices S d selected d.order ∅ else ∅

/-- The history after the deployment: a record when it starts, the same record when it ends. -/
def deploy : List DeploymentState :=
  match servicesToDeploy S d deployments with
  | none => deployments
  | some _ =>
    let started := saveDeployment S d.started deployments ⟨d.id, d.timestamp, ∅⟩
    if d.started = .saved then
      saveDeployment S d.final started ⟨d.id, d.timestamp, deployedServices S d deployments⟩
    else started

end

inductive Event where
  | deploy (d : Deployment)
  /-- A rollback, promotion, scaling or image run saves a record of its own. -/
  | record (deployment : DeploymentState) (outcome : SaveOutcome)

def machine : Machine (List DeploymentState) Event where
  Enabled _ e :=
    match e with
    | .deploy d => d.Validated
    | .record _ _ => True
  next deployments e :=
    match e with
    | .deploy d => deploy S d deployments
    | .record deployment outcome => saveDeployment S outcome deployments deployment

def attempt (deployments : List DeploymentState) (e : Event) (name : String) :
    Option ServiceState :=
  match e with
  | .deploy d =>
    (DeploymentState.mk d.id d.timestamp (deployedServices S d deployments)).attempt name
  | .record deployment _ => deployment.attempt name

def plannedFingerprint (d : Deployment) (name : String) : Option String :=
  match d.services.lookup name with
  | none => none
  | some service =>
    match resolveRunImage service d.allServices d.imageRefs with
    | .error _ => none
    | .ok image =>
      if service.isRun then S.fingerprints.configHash (withImage service image) else none

end Deploy

def asLate (timestamp : ℤ) (deployments : List DeploymentState) : ℕ :=
  deployments.countP fun deployment => timestamp ≤ deployment.timestamp

section Saves

variable {deployments : List DeploymentState}

theorem mem_pruneAndSortDeployments (h : entry ∈ pruneAndSortDeployments S deployments limit) :
    entry ∈ deployments := by
  unfold pruneAndSortDeployments at h
  split_ifs at h
  · exact (S.sortSlice_perm _).mem_iff.mp (mem_of_mem_take h)
  · exact (S.sortSlice_perm _).mem_iff.mp h

theorem length_updateHistory_le : (updateHistory S deployments deployment).length ≤
    maxHistoryEntries := by
  unfold updateHistory pruneAndSortDeployments
  split_ifs with h
  · rw [length_take]
    exact min_le_left _ _
  · rw [(S.sortSlice_perm _).length_eq]
    have hpos : 0 < maxHistoryEntries := by decide
    omega

theorem mem_updateHistory (h : entry ∈ updateHistory S deployments deployment) :
    entry = deployment ∨ entry ∈ deployments := by
  have hput := mem_pruneAndSortDeployments h
  unfold putDeployment at hput
  split_ifs at hput
  · rcases mem_modifyFirst hput with hmem | ⟨_, _, heq⟩
    · exact .inr hmem
    · exact .inl heq
  · rcases mem_append.mp hput with hmem | hmem
    · exact .inr hmem
    · exact .inl (mem_singleton.mp hmem)

/-- An entry survives if there is room for all that are as late. -/
theorem mem_updateHistory_of_asLate (h : entry ∈ putDeployment deployments deployment)
    (hroom : asLate entry.timestamp (putDeployment deployments deployment) ≤ maxHistoryEntries) :
    entry ∈ updateHistory S deployments deployment := by
  unfold updateHistory pruneAndSortDeployments
  have hperm := S.sortSlice_perm (putDeployment deployments deployment)
  split_ifs
  · refine mem_take_of_countP_le (S.sortSlice_sorted _) (hperm.mem_iff.mpr h) ?_
    rw [hperm.countP_eq]
    exact hroom
  · exact hperm.mem_iff.mpr h

theorem putDeployment_fresh (h : ∀ existing ∈ deployments, existing.id ≠ deployment.id) :
    putDeployment deployments deployment = deployments ++ [deployment] := by
  have hnone : ¬ deployments.any (fun existing => existing.id == deployment.id) := by
    rw [any_eq_true]
    rintro ⟨existing, hmem, hid⟩
    exact h existing hmem (beq_iff_eq.mp hid)
  rw [putDeployment, if_neg hnone]

theorem mem_updateHistory_fresh (h : ∀ existing ∈ deployments, existing.id ≠ deployment.id)
    (hentry : entry ∈ deployments ++ [deployment])
    (hroom : asLate entry.timestamp deployments < maxHistoryEntries) :
    entry ∈ updateHistory S deployments deployment := by
  have hput := putDeployment_fresh h
  refine mem_updateHistory_of_asLate (by rwa [hput]) ?_
  have hone : asLate entry.timestamp [deployment] ≤ 1 := countP_le_length
  rw [hput, asLate, countP_append, ← asLate, ← asLate]
  omega

section

variable (hlength : deployments.length ≤ maxHistoryEntries)

include hlength

theorem updateHistory_replace (h : ∃ existing ∈ deployments, existing.id = deployment.id) :
    (updateHistory S deployments deployment).Perm
      (modifyFirst (fun existing => existing.id == deployment.id)
        (fun _ => deployment) deployments) := by
  have hany : deployments.any (fun existing => existing.id == deployment.id) := by
    obtain ⟨existing, hmem, hid⟩ := h
    exact any_eq_true.mpr ⟨existing, hmem, beq_iff_eq.mpr hid⟩
  have hsame : (modifyFirst (fun existing => existing.id == deployment.id)
      (fun _ => deployment) deployments).length =
      deployments.length := by
    have hmap :=
      congrArg length (map_modifyFirst (p := fun existing => existing.id == deployment.id)
      (f := fun _ => deployment) (g := fun _ => ()) (fun _ _ => rfl) deployments)
    rwa [length_map, length_map] at hmap
  rw [updateHistory, putDeployment, if_pos hany, pruneAndSortDeployments, if_neg (by omega)]
  exact S.sortSlice_perm _

theorem mem_updateHistory_replaced (h : ∃ existing ∈ deployments, existing.id = deployment.id) :
    deployment ∈ updateHistory S deployments deployment := by
  obtain ⟨existing, hmem, hid⟩ := h
  have hfound : (deployments.find? fun other => other.id == deployment.id).isSome :=
    find?_isSome.mpr ⟨existing, hmem, beq_iff_eq.mpr hid⟩
  obtain ⟨first, hfirst⟩ := Option.isSome_iff_exists.mp hfound
  exact (updateHistory_replace hlength ⟨existing, hmem, hid⟩).mem_iff.mpr
    (mem_modifyFirst_of_find? hfirst)

theorem mem_updateHistory_other (h : ∃ existing ∈ deployments, existing.id = deployment.id)
    (hentry : entry ∈ deployments) (hid : entry.id ≠ deployment.id) :
    entry ∈ updateHistory S deployments deployment := by
  refine (updateHistory_replace hlength h).mem_iff.mpr ?_
  rcases mem_modifyFirst_of_mem hentry with
    hkept | ⟨hfound, _⟩
  · exact hkept
  · have hmatch := find?_some (p := fun other : DeploymentState => other.id == deployment.id) hfound
    exact absurd (beq_iff_eq.mp hmatch) hid

end

end Saves

/-- The newest attempt at the run is recorded as a success under the fingerprint. -/
def Completed (name hash : String) (deployments : List DeploymentState) : Prop :=
  ∃ newest ∈ deployments,
    (∃ record, newest.attempt name = some record ∧ record.run = some ⟨0⟩ ∧
      record.configHash = hash) ∧
    ∀ other ∈ deployments, (other.attempt name).isSome → other = newest ∨
      other.timestamp < newest.timestamp

/-- A save that does not lose the newest attempt at the run: the deployment has an ID of its own,
its clock is past every recorded attempt, and there is room for it and for the newest attempt among
the entries that are as late as they are. -/
@[mk_iff] structure Keeps (name : String) (deployments : List DeploymentState) (id : String)
    (timestamp : ℤ) : Prop where
  fresh : ∀ entry ∈ deployments, entry.id ≠ id
  later : ∀ entry ∈ deployments, (entry.attempt name).isSome → entry.timestamp < timestamp
  room : asLate timestamp deployments < maxHistoryEntries
  newest : ∀ entry ∈ deployments, (entry.attempt name).isSome →
    (∀ other ∈ deployments, (other.attempt name).isSome → other.timestamp ≤ entry.timestamp) →
    asLate entry.timestamp deployments < maxHistoryEntries

instance (name : String) (deployments : List DeploymentState) (id : String) (timestamp : ℤ) :
    Decidable (Keeps name deployments id timestamp) := decidable_of_iff' _ (keeps_iff ..)

section Attempts

variable {name hash : String}

theorem others_updated {P : DeploymentState → Prop} (hatt : deployment.attempt name = none)
    (h : ∀ other ∈ deployments, (other.attempt name).isSome → P other) :
    ∀ other ∈ updateHistory S deployments deployment, (other.attempt name).isSome → P other := by
  intro other hother hsome
  rcases mem_updateHistory hother with rfl | hold
  · rw [hatt] at hsome
    cases hsome
  · exact h other hold hsome

section

variable (h : Completed name hash deployments)

include h

theorem Completed.newest_le : ∃ newest ∈ deployments,
      (∃ record, newest.attempt name = some record ∧ record.run = some ⟨0⟩ ∧
        record.configHash = hash) ∧
      (∀ other ∈ deployments, (other.attempt name).isSome → other = newest ∨
        other.timestamp < newest.timestamp) ∧
      ∀ other ∈ deployments, (other.attempt name).isSome → other.timestamp ≤ newest.timestamp := by
  obtain ⟨newest, hmem, hrec, hothers⟩ := h
  refine ⟨newest, hmem, hrec, hothers, ?_⟩
  intro other hother hatt
  rcases hothers other hother hatt with rfl | hlt
  · exact le_rfl
  · exact hlt.le

/-- The newest attempt survives the first save of a deployment that does not attempt the run. -/
theorem Completed.save (hkeeps : Keeps name deployments deployment.id deployment.timestamp)
    (hatt : deployment.attempt name = none) :
    Completed name hash (updateHistory S deployments deployment) := by
  obtain ⟨newest, hmem, ⟨record, hrec, hdone⟩, hothers, hle⟩ := h.newest_le
  have hroom := hkeeps.newest newest hmem (by rw [hrec]; rfl) hle
  refine ⟨newest, ?_, ⟨record, hrec, hdone⟩, others_updated hatt hothers⟩
  exact mem_updateHistory_fresh hkeeps.fresh (mem_append_left _ hmem) hroom

theorem Completed.replace (hlength : deployments.length ≤ maxHistoryEntries)
    (hstarted : ∃ existing ∈ deployments, existing.id = deployment.id)
    (hids : ∀ existing ∈ deployments, existing.id = deployment.id → existing.attempt name = none)
    (hatt : deployment.attempt name = none) :
    Completed name hash (updateHistory S deployments deployment) := by
  obtain ⟨newest, hmem, ⟨record, hrec, hdone⟩, hothers⟩ := h
  refine ⟨newest, ?_, ⟨record, hrec, hdone⟩, others_updated hatt hothers⟩
  refine mem_updateHistory_other hlength hstarted hmem fun hid => ?_
  rw [hids newest hmem hid] at hrec
  cases hrec

end

theorem completed_replace (hlength : deployments.length ≤ maxHistoryEntries)
    (hstarted : ∃ existing ∈ deployments, existing.id = deployment.id)
    (hlater : ∀ existing ∈ deployments, (existing.attempt name).isSome →
      existing.timestamp < deployment.timestamp)
    (hrec : deployment.attempt name = some record) (hrun : record.run = some ⟨0⟩)
    (hhash : record.configHash = hash) :
    Completed name hash (updateHistory S deployments deployment) := by
  refine ⟨deployment, mem_updateHistory_replaced hlength hstarted, ⟨record, hrec, hrun, hhash⟩, ?_⟩
  intro other hother hsome
  rcases mem_updateHistory hother with heq | hold
  · exact .inl heq
  · exact .inr (hlater other hold hsome)

theorem Keeps.started {id : String} (h : Keeps name deployments id timestamp) :
    (∃ existing ∈ updateHistory S deployments ⟨id, timestamp, ∅⟩, existing.id = id) ∧
    (∀ existing ∈ updateHistory S deployments ⟨id, timestamp, ∅⟩, existing.id = id →
      existing.attempt name = none) ∧
    ∀ existing ∈ updateHistory S deployments ⟨id, timestamp, ∅⟩, (existing.attempt name).isSome →
      existing.timestamp < timestamp := by
  refine ⟨⟨⟨id, timestamp, ∅⟩, ?_, rfl⟩, ?_, ?_⟩
  · exact mem_updateHistory_fresh h.fresh (mem_append_right _ mem_cons_self) h.room
  · intro existing hmem hid
    rcases mem_updateHistory hmem with rfl | hold
    · rfl
    · exact absurd hid (h.fresh existing hold)
  · intro existing hmem hsome
    rcases mem_updateHistory hmem with rfl | hold
    · cases hsome
    · exact h.later existing hold hsome

end Attempts

section Planning

variable {name hash : String}

theorem Completed.completedRun (h : Completed name hash deployments) (hhash : hash ≠ "") :
    ∃ record, RunHistory.completedRun deployments name = some record ∧
      record.configHash = hash := by
  obtain ⟨newest, hmem, ⟨record, hrec, hrun, rfl⟩, hothers⟩ := h
  have hperm : (newestFirst deployments).Perm deployments := perm_insertionSort _ _
  have hsorted : (newestFirst deployments).Pairwise fun a b => b.timestamp ≤ a.timestamp :=
    pairwise_insertionSort (fun a b : DeploymentState => b.timestamp ≤ a.timestamp) _
  have hfound : (newestFirst deployments).findSome? (fun deployment => deployment.attempt name) =
      some record := by
    rw [← hrec]
    refine findSome?_eq_of_greatest hsorted
      (hperm.mem_iff.mpr hmem) (by rw [hrec]; rfl) ?_
    intro other hother
    exact hothers other (hperm.mem_iff.mp hother)
  refine ⟨record, ?_, rfl⟩
  simp only [RunHistory.completedRun, hfound]
  rw [if_pos ⟨hrun, hhash⟩]

/-- The newest recorded attempt at a run, successful or not. -/
def newestAttempt (deployments : List DeploymentState) (name : String) : Option ServiceState :=
  (newestFirst deployments).findSome? fun deployment => deployment.attempt name

theorem plannedFingerprint_eq_some (h : plannedFingerprint S d name = some hash) :
    ∃ service image, d.services.lookup name = some service ∧ service.isRun ∧
      resolveRunImage service d.allServices d.imageRefs = .ok image ∧
      S.fingerprints.configHash (withImage service image) = some hash := by
  unfold plannedFingerprint at h
  split at h
  · cases h
  · rename_i service hservice
    split at h
    · cases h
    · rename_i image himage
      split_ifs at h with hrun
      exact ⟨service, image, hservice, hrun, himage, h⟩

theorem lookup_prepareRunPlanServices
    (h : prepareRunPlanServices services allServices imageRefs = .ok planServices)
    (hservice : services.lookup name = some service) (hrun : service.isRun)
    (himage : resolveRunImage service allServices imageRefs = .ok image) :
    planServices.lookup name = some (withImage service image) := by
  rw [lookup_collectFrom h name, hservice, Option.bind_some, if_pos hrun, himage]
  rfl

theorem lookup_addRunHistoryActual (hdesired : planServices.lookup name = some desired) :
    (addRunHistoryActual actual planServices deployments).lookup name =
      (runHistoryActual actual deployments name desired).or (actual.lookup name) := by
  rw [addRunHistoryActual, lookup_fillFrom, hdesired]
  rfl

/-- A completed run is known to the plan, or the plan is refused because the name belongs to a
service that is running. -/
theorem completedRun_known (h : RunHistory.completedRun deployments name = some record)
    (hdesired : planServices.lookup name = some desired) (hrun : desired.isRun)
    (hvalid : validateRunKindTransitions planServices
      (addRunHistoryActual actual planServices deployments) = .ok ()) :
    ∃ known, (addRunHistoryActual actual planServices deployments).lookup name = some known ∧
      known.configHash = record.configHash ∧ known.configSnapshot = some desired := by
  have hlookup : (addRunHistoryActual actual planServices deployments).lookup name = _ :=
    lookup_addRunHistoryActual hdesired
  by_cases hlong : longRunning (actual.lookup name)
  · have hnone : runHistoryActual actual deployments name desired = none := by
      simp [runHistoryActual, hlong]
    rw [hnone, Option.none_or] at hlookup
    have hmem := mem_lookup_iff.mp hdesired
    have hfound : (planServices.entries.find? fun entry => entry.2.isRun &&
        longRunning ((addRunHistoryActual actual planServices deployments).lookup
          entry.1)).isSome :=
      find?_isSome.mpr ⟨_, hmem, by rw [hlookup, hrun, hlong]; rfl⟩
    obtain ⟨entry, hentry⟩ := Option.isSome_iff_exists.mp hfound
    simp only [validateRunKindTransitions, hentry] at hvalid
    cases hvalid
  · rw [Bool.not_eq_true] at hlong
    rw [hlookup, runHistoryActual, if_pos ⟨hrun, hlong⟩, h]
    exact ⟨_, rfl, rfl, rfl⟩

theorem lookup_filterActualStateForServices (h : name ∈ services) :
    (filterActualStateForServices actual services).lookup name = actual.lookup name := by
  obtain ⟨service, hservice⟩ := exists_lookup h
  rw [filterActualStateForServices, lookup_fillFrom, hservice]
  cases actual.lookup name with
  | none | some => rfl

theorem runChange_completed (hhash : F.configHash desired = some known.configHash)
    (hsnap : known.configSnapshot = some desired) (hrun : desired.isRun) :
    (runChange F name desired (some known)).type = .none := by
  have hrec : recorded ServiceConfig.isRun (some known) = some known := by
    simp [recorded, hsnap, hrun]
  have hmatches : fingerprintMatches F desired known := by
    rw [fingerprintMatches, hhash]
    exact BEq.rfl
  simp only [runChange, hrec]
  rw [if_pos hmatches]
  rfl

section

variable (hservice : d.services.lookup name = some service) (hrun : service.isRun)
  (himage : resolveRunImage service d.allServices d.imageRefs = .ok image)
  (hplan : planDeployment S d deployments = .ok plan)

include hservice hrun himage hplan

/-- A plan has one change for a run, against what the history and the nodes know of it. -/
theorem planDeployment_run : ∃ planServices,
    planServices.lookup name = some (withImage service image) ∧
      validateRunKindTransitions planServices
        (addRunHistoryActual d.actual planServices deployments) = .ok () ∧
      ∀ change, (change ∈ plan.changes ∧ change.serviceName = name) ↔
        change = runChange S.fingerprints name (withImage service image)
          ((addRunHistoryActual d.actual planServices deployments).lookup name) := by
  simp only [planDeployment, bind_eq_ok] at hplan
  obtain ⟨planServices, hprepare, _, _, _, hvalid, hplan⟩ := hplan
  have hdesired := lookup_prepareRunPlanServices hprepare hservice hrun himage
  have hruns : hasRunServices planServices :=
    any_eq_true.mpr ⟨⟨name, withImage service image⟩, mem_lookup_iff.mp hdesired, hrun⟩
  rw [if_pos (Or.inl hruns)] at hvalid hplan
  have hactual : (if d.target ≠ "" then
      filterActualStateForServices (addRunHistoryActual d.actual planServices deployments)
        d.services
      else addRunHistoryActual d.actual planServices deployments).lookup name =
        (addRunHistoryActual d.actual planServices deployments).lookup name := by
    split_ifs
    · exact lookup_filterActualStateForServices (lookup_isSome.mp (by rw [hservice]; rfl))
    · rfl
  cases hplan
  refine ⟨planServices, hdesired, hvalid, ?_⟩
  intro change
  rw [mem_computePlan_changes hdesired, hactual, desiredChange, isRun_withImage, if_pos hrun]

theorem planDeployment_completed (h : RunHistory.completedRun deployments name = some record)
    (hplanned : S.fingerprints.configHash (withImage service image) = some record.configHash) :
    ∀ change ∈ plan.changes, change.serviceName = name → change.type = .none := by
  obtain ⟨planServices, hdesired, hvalid, hchanges⟩ := planDeployment_run hservice hrun himage hplan
  obtain ⟨known, hknown, hhash, hsnap⟩ := completedRun_known h hdesired hrun hvalid
  intro change hchange hname
  rw [(hchanges change).mp ⟨hchange, hname⟩, hknown]
  exact runChange_completed (by rw [hplanned, hhash]) hsnap hrun

/-- The nodes report services and jobs only, so what the history does not complete is added. -/
theorem planDeployment_not_completed (h : RunHistory.completedRun deployments name = none)
    (hgathered : recorded ServiceConfig.isRun (d.actual.lookup name) = none) :
    (∃ change ∈ plan.changes, change.serviceName = name) ∧
      ∀ change ∈ plan.changes, change.serviceName = name → change.type = .add := by
  obtain ⟨planServices, hdesired, -, hchanges⟩ := planDeployment_run hservice hrun himage hplan
  have hknown : (addRunHistoryActual d.actual planServices deployments).lookup name =
      d.actual.lookup name := by
    rw [lookup_addRunHistoryActual hdesired, runHistoryActual, h, Option.map_none, ite_self,
      Option.none_or]
  refine ⟨⟨_, (hchanges _).mpr rfl⟩, ?_⟩
  intro change hchange hname
  rw [(hchanges change).mp ⟨hchange, hname⟩, hknown, runChange, hgathered]
  rfl

end

/-- The newest recorded attempt at a run failed, and a plan is made for the same fingerprint. The
plan repeats the run, unless exit code 0 had been received when the stream failed. -/
theorem failed_run_planned_iff {outcome : RunOutcome} {executed : ServiceConfig} {image : String}
    {next : Deployment} (hfailed : outcome.ok = false)
    (hnewest : newestAttempt deployments name =
      some (runHistoryServiceState S name executed image outcome.state))
    (hhash : runServiceFingerprint S executed image ≠ "")
    (hsame : plannedFingerprint S next name = some (runServiceFingerprint S executed image))
    (hgathered : recorded ServiceConfig.isRun (next.actual.lookup name) = none)
    (hplan : planDeployment S next deployments = .ok plan) :
    ((∃ change ∈ plan.changes, change.serviceName = name ∧
      (change.type = .add ∨ change.type = .update)) ∧
        ∀ change ∈ plan.changes, change.serviceName = name → change.type ≠ .none) ↔
      outcome ≠ .ended 0 true := by
  obtain ⟨service, resolved, hservice, hrun, himage, hplanned⟩ := plannedFingerprint_eq_some hsame
  have hcompleted : RunHistory.completedRun deployments name =
      if outcome.state = some ⟨0⟩ then
        some (runHistoryServiceState S name executed image outcome.state) else none := by
    rw [newestAttempt] at hnewest
    simp only [RunHistory.completedRun, hnewest, runHistoryServiceState, ne_eq, hhash,
      not_false_eq_true, and_true]
  by_cases hstate : outcome.state = some ⟨0⟩
  · -- the recorded exit code says that the run is complete
    rw [if_pos hstate] at hcompleted
    have hnone := planDeployment_completed hservice hrun himage hplan hcompleted hplanned
    have houtcome : outcome = .ended 0 true := by
      cases outcome with
      | refused => cases hstate
      | ended exitCode streamFailed =>
        cases hstate
        cases streamFailed with
        | false => cases hfailed
        | true => rfl
    refine iff_of_false ?_ (not_not_intro houtcome)
    rintro ⟨⟨change, hchange, hname, -⟩, hall⟩
    exact hall change hchange hname (hnone change hchange hname)
  · rw [if_neg hstate] at hcompleted
    obtain ⟨⟨change, hchange, hname⟩, hadd⟩ :=
      planDeployment_not_completed hservice hrun himage hplan hcompleted hgathered
    refine iff_of_true ⟨⟨change, hchange, hname, .inl (hadd change hchange hname)⟩, ?_⟩ ?_
    · intro other hother hname hnone
      rw [hadd other hother hname] at hnone
      cases hnone
    · rintro rfl
      exact hstate rfl

theorem servicesToDeploy_completed (h : Completed name hash deployments) (hhash : hash ≠ "")
    (hvalidated : d.Validated) (hplanned : plannedFingerprint S d name = some hash)
    (hsel : servicesToDeploy S d deployments = some selected) : selected.lookup name = none := by
  obtain ⟨service, image, hservice, hrun, himage, hplanned⟩ := plannedFingerprint_eq_some hplanned
  obtain ⟨record, hcompleted, rfl⟩ := h.completedRun hhash
  unfold servicesToDeploy at hsel
  split at hsel
  · cases hsel
  · rename_i plan hplan
    split_ifs at hsel
    cases hsel
    have hunchanged := planDeployment_completed hservice hrun himage hplan hcompleted hplanned
    have hbuild := (hvalidated ⟨name, service⟩ (mem_lookup_iff.mp hservice) hrun).1
    rw [servicesToDeployForPlan, lookup_fillFrom, hservice, Option.bind_some, if_neg]
    · rfl
    · rintro (hany | hbacked)
      · obtain ⟨change, hchange, hselect⟩ := any_eq_true.mp hany
        rw [Bool.and_eq_true, beq_iff_eq] at hselect
        rw [hunchanged change hchange hselect.2] at hselect
        cases hselect.1
      · rw [buildBacked, hrun, Bool.not_true, Bool.and_false, Bool.or_false, bne_iff_ne] at hbacked
        exact hbacked hbuild

theorem lookup_deployServices (h : selected.lookup name = none) (records : GoMap ServiceState) :
    (deployServices S d selected order records).lookup name = records.lookup name := by
  induction order generalizing records with
  | nil => rfl
  | cons next rest ih =>
    unfold deployServices
    split
    · exact ih records
    · rename_i service hservice
      have hne : name ≠ next := by
        rintro rfl
        rw [h] at hservice
        cases hservice
      by_cases hcancelled : (d.outcome next).cancelled
      · rw [if_pos hcancelled]
      · rw [if_neg hcancelled]
        by_cases hrun : service.isRun
        · rw [if_pos hrun]
          cases resolveRunImage service d.allServices d.imageRefs with
          | error => rfl
          | ok =>
            by_cases hok : (d.outcome next).run.ok
            · simp only [hok, if_true]
              rw [ih, lookup_insert_ne hne]
            · simp only [hok]
              exact lookup_insert_ne hne
        · split_ifs
          · rw [ih, lookup_insert_ne hne]
          · rfl

/-- A deployment that finds the run completed under its fingerprint does not attempt it. -/
theorem attempt_completed (h : Completed name hash deployments) (hhash : hash ≠ "")
    (hvalidated : d.Validated) (hplanned : plannedFingerprint S d name = some hash) :
    attempt S deployments (.deploy d) name = none := by
  have hlookup : (deployedServices S d deployments).lookup name = none := by
    unfold deployedServices
    split
    · rfl
    · rename_i selected hsel
      split_ifs
      · rw [lookup_deployServices (servicesToDeploy_completed h hhash hvalidated hplanned hsel)]
        rfl
      · rfl
  simp [attempt, DeploymentState.attempt, hlookup]

end Planning

section

variable (S : Setting) (name : String) (deployments : List DeploymentState) (e : Event)

/-- The event saves no record, or its saves keep the newest attempt at the run. -/
def KeepsNewest : Prop :=
  match e with
  | .deploy d => (servicesToDeploy S d deployments).isSome → Keeps name deployments d.id d.timestamp
  | .record deployment _ => Keeps name deployments deployment.id deployment.timestamp

instance : Decidable (KeepsNewest S name deployments e) :=
  match e with
  | .deploy _ => inferInstanceAs (Decidable (_ → _))
  | .record _ _ => inferInstanceAs (Decidable (Keeps _ _ _ _))

instance : Decidable ((machine S).Enabled deployments e) :=
  match e with
  | .deploy d => inferInstanceAs (Decidable d.Validated)
  | .record _ _ => inferInstanceAs (Decidable True)

def quiet : Machine (List DeploymentState) Event :=
  (machine S).restrict fun deployments e => attempt S deployments e name = none

instance : Decidable ((quiet S name).Enabled deployments e) := inferInstanceAs (Decidable (_ ∧ _))

def quietKeeping : Machine (List DeploymentState) Event :=
  (quiet S name).restrict (KeepsNewest S name)

instance : Decidable ((quietKeeping S name).Enabled deployments e) :=
  inferInstanceAs (Decidable (_ ∧ _))

end

section Executions

variable {name hash : String}

section

variable (h : Completed name hash deployments)

include h

theorem saveDeployment_completed
    (hkeeps : Keeps name deployments deployment.id deployment.timestamp)
    (hatt : deployment.attempt name = none) :
    Completed name hash (saveDeployment S outcome deployments deployment) := by
  cases outcome with
  | lost => exact h
  | saved | unreported => exact h.save hkeeps hatt

theorem deploy_completed
    (hkeeps : (servicesToDeploy S d deployments).isSome → Keeps name deployments d.id d.timestamp)
    (hatt : attempt S deployments (.deploy d) name = none) :
    Completed name hash (deploy S d deployments) := by
  unfold deploy
  cases hsel : servicesToDeploy S d deployments with
  | none => exact h
  | some =>
    have hkeeps := hkeeps (by rw [hsel]; rfl)
    have hfirst : ∀ outcome, Completed name hash
        (saveDeployment S outcome deployments ⟨d.id, d.timestamp, ∅⟩) :=
      fun outcome => saveDeployment_completed h hkeeps rfl
    by_cases hstarted : d.started = .saved
    · have hfirst := hfirst .saved
      obtain ⟨hexists, hids, -⟩ := hkeeps.started
      simp only [hstarted, if_true]
      cases d.final with
      | lost => exact hfirst
      | saved | unreported => exact hfirst.replace length_updateHistory_le hexists hids hatt
    · simp only [hstarted, if_false]
      exact hfirst d.started

theorem quietKeeping_step_completed (he : (quietKeeping S name).Enabled deployments e) :
    Completed name hash ((quietKeeping S name).next deployments e) := by
  obtain ⟨⟨-, hatt⟩, hkeeps⟩ := he
  cases e with
  | deploy => exact deploy_completed h hkeeps hatt
  | record => exact saveDeployment_completed h hkeeps hatt

end

theorem deploy_completes
    (hkeeps : (servicesToDeploy S d deployments).isSome → Keeps name deployments d.id d.timestamp)
    (hstarted : d.started = .saved) (hfinal : d.final = .saved)
    (hrec : attempt S deployments (.deploy d) name = some record) (hrun : record.run = some ⟨0⟩) :
    Completed name record.configHash (deploy S d deployments) := by
  cases hsel : servicesToDeploy S d deployments with
  | none =>
    have hempty : deployedServices S d deployments = ∅ := by simp [deployedServices, hsel]
    rw [attempt, hempty] at hrec
    cases hrec
  | some =>
    have hkeeps := hkeeps (by rw [hsel]; rfl)
    obtain ⟨hexists, -, hlater⟩ := hkeeps.started
    simp only [deploy, hsel, hstarted, hfinal, if_true]
    exact completed_replace length_updateHistory_le hexists hlater hrec hrun rfl

end Executions

def demo : Setting where
  fingerprints := ⟨fun service => some ("sha256:" ++ service.image),
    fun _ _ serviceName => serviceName⟩
  projectName := "shop"
  environment := "production"
  sortSlice := newestFirst
  sortSlice_perm _ := perm_insertionSort _ _
  sortSlice_sorted _ := pairwise_insertionSort
    (fun a b : DeploymentState => b.timestamp ≤ a.timestamp) _

def shop : GoMap ServiceConfig :=
  mapOf [("migrate", { kind := .run, image := "migrate:1" }), ("web", { build := "." })]

def release (number : ℕ) : Deployment where
  id := toString number
  timestamp := number
  services := shop
  allServices := shop
  imageRefs := mapOf [("migrate", "migrate:1"), ("web", "web:1")]
  actual := ∅
  order := ["migrate", "web"]

def migrated : ServiceState :=
  { kind := .run, name := "migrate", image := "migrate:1", configHash := "sha256:migrate:1",
    run := some ⟨0⟩ }

def releases (count : ℕ) : List Event :=
  (range count).map fun number => .deploy (release (number + 1))

def historyAfter (count : ℕ) : List DeploymentState :=
  (machine demo).runTrace ((machine demo).next [] (.deploy (release 0))) (releases count)

/-- The history after a first release whose run ends in this way. -/
def historyEnding (outcome : RunOutcome) : List DeploymentState :=
  deploy demo { release 0 with outcome := fun _ => { run := outcome } } []

theorem exited_migrate_planned_again : ∃ plan,
    planDeployment demo (release 1) (historyEnding (.ended 1 false)) = .ok plan ∧
    ∃ change ∈ plan.changes, change.serviceName = "migrate" ∧
      (change.type = .add ∨ change.type = .update) := by
  have hok :
      (planDeployment demo (release 1) (historyEnding (.ended 1 false))).toOption.isSome := by
    decide +kernel
  obtain ⟨plan, hplan⟩ := exists_ok hok
  have hnewest : newestAttempt (historyEnding (.ended 1 false)) "migrate" =
      some (runHistoryServiceState demo "migrate"
      { kind := .run, image := "migrate:1" } "migrate:1" (RunOutcome.ended 1 false).state) := by
    decide +kernel
  have hplanned := failed_run_planned_iff rfl hnewest (by decide +kernel)
    (by decide +kernel) rfl hplan
  exact ⟨plan, hplan, (hplanned.mpr (by decide)).1⟩

/-- Exit code 0 arrives and the stream fails: the run is reported as failed, and is never repeated.
-/
theorem interrupted_migrate_skipped : (RunOutcome.ended 0 true).ok = false ∧
    newestAttempt (historyEnding (.ended 0 true)) "migrate" =
      some (runHistoryServiceState demo "migrate" { kind := .run, image := "migrate:1" } "migrate:1"
        (RunOutcome.ended 0 true).state) ∧
    (planDeployment demo (release 1) (historyEnding (.ended 0 true))).toOption.map
        (fun plan => plan.changes.map fun change => (change.serviceName, change.type)) =
      some [("migrate", .none), ("web", .add)] := by
  refine ⟨rfl, ?_, ?_⟩
  · decide +kernel
  · decide +kernel

end RunHistory
