import Tako.DeployConfig

/-! # Reconciliation plans

`computePlan` compares what the nodes report with the configuration. The fingerprint of a
configuration and the runtime identity of a service are functions of their arguments, and nothing
else is used of them.
-/
namespace Reconciliation

open List GoPrelude GoMaps DeployConfig ServiceConfig AList

/-- The hashes the plan compares; `configHash` is `none` if the configuration has no JSON form. -/
structure Fingerprints where
  configHash : ServiceConfig → Option String
  serviceIdentity : String → String → String → String

structure ActualService where
  (name image : String := "")
  revisionImages : StringMap := ∅
  replicas : ℤ := 0
  containers : List String := []
  (configHash runtimeID : String := "")
  persistent : Bool := false
  (currentRevision previousRevision : String := "")
  warmingRevisions : List String := []
  deployStrategy : String := ""
  (activeContainers warmingContainers : List String := [])
  configSnapshot : Option ServiceConfig := none

section

variable (existing incoming : String) (actual : GoMap ActualService)

def mergeRuntimeID : String := if existing = incoming then existing else ""

def mergeOptionalLabel : String :=
  if incoming = "" then existing
  else if existing = "" then incoming
  else if existing = incoming then existing
  else ""

def mergeConfigHash : String :=
  if existing = "" then incoming
  else if incoming ≠ "" ∧ existing ≠ incoming then ""
  else existing

def mergeRevisionLists (existing incoming : List String) : List String :=
  if incoming = [] then existing
  else
    sortStrings (incoming.foldl (fun out revision =>
      let revision := trimSpace revision
      if revision = "" ∨ revision ∈ out then out else out ++ [revision]) existing)

def mergeRevisionImageMaps (existing incoming : StringMap) : StringMap :=
  incoming.entries.foldl (fun out entry =>
    let revision := trimSpace entry.1
    let image := trimSpace entry.2
    if revision = "" ∨ image = "" then out
    else
      let current := (out.lookup revision).getD ""
      if current ≠ "" ∧ current ≠ image then out.insert revision "" else out.insert revision image)
        existing

def ActualService.merge (existing incoming : ActualService) : ActualService :=
  { existing with
    replicas := existing.replicas + incoming.replicas
    containers := existing.containers ++ incoming.containers
    image := if existing.image = "" then incoming.image else existing.image
    revisionImages := mergeRevisionImageMaps existing.revisionImages incoming.revisionImages
    configHash := mergeConfigHash existing.configHash incoming.configHash
    runtimeID := mergeRuntimeID existing.runtimeID incoming.runtimeID
    persistent := existing.persistent || incoming.persistent
    currentRevision := mergeOptionalLabel existing.currentRevision incoming.currentRevision
    previousRevision := mergeOptionalLabel existing.previousRevision incoming.previousRevision
    warmingRevisions := mergeRevisionLists existing.warmingRevisions incoming.warmingRevisions
    deployStrategy := mergeOptionalLabel existing.deployStrategy incoming.deployStrategy
    activeContainers := existing.activeContainers ++ incoming.activeContainers
    warmingContainers := existing.warmingContainers ++ incoming.warmingContainers }

abbrev NodeState : Type := GoMap (Option ActualService)

def addReport (serviceName : String) : Option ActualService → GoMap ActualService
  | none => actual
  | some report =>
    match actual.lookup serviceName with
    | some existing => actual.insert serviceName (existing.merge report)
    | none => actual.insert serviceName report

def addNode (node : NodeState) : GoMap ActualService :=
  node.entries.foldl (fun actual entry => addReport actual entry.1 entry.2) actual

end

def aggregateActualStateByServer (actualByServer : GoMap NodeState) : GoMap ActualService :=
  (sortStrings actualByServer.keys).foldl
    (fun actual server => addNode actual ((actualByServer.lookup server).getD ∅)) ∅

def combine (existing : Option ActualService) : Option ActualService → Option ActualService
  | none => existing
  | some report => some (match existing with
    | some existing => existing.merge report
    | none => report)

theorem lookup_addReport :
    (addReport actual name report).lookup key =
      if key = name then combine (actual.lookup key) report else actual.lookup key := by
  cases report with
  | none => simp [addReport, combine]
  | some =>
    unfold addReport
    by_cases hkey : key = name
    · subst hkey
      cases hlookup : actual.lookup key with
      | none | some => simp [combine]
    · rw [if_neg hkey]
      cases hlookup : actual.lookup name with
      | none | some => simp [lookup_insert_ne hkey]

theorem lookup_foldl_addReport {l : List (Sigma fun _ : String => Option ActualService)}
    (hl : l.NodupKeys) (key : String) :
    (l.foldl (fun actual entry => addReport actual entry.1 entry.2) actual).lookup key =
      combine (actual.lookup key) ((l.dlookup key).getD none) := by
  induction l generalizing actual with
  | nil => rfl
  | cons entry rest ih =>
    obtain ⟨hfresh, hrest⟩ := nodupKeys_cons.mp hl
    rw [foldl_cons, ih hrest, lookup_addReport]
    obtain ⟨name, report⟩ := entry
    by_cases hkey : key = name
    · subst hkey
      have hnone := dlookup_eq_none.mpr hfresh
      rw [if_pos rfl, hnone, dlookup_cons_eq]
      rfl
    · rw [if_neg hkey, dlookup_cons_ne rest ⟨name, report⟩ hkey]

def reportOf (node : NodeState) (serviceName : String) : Option ActualService :=
  (node.lookup serviceName).getD none

theorem lookup_addNode :
    (addNode actual node).lookup key = combine (actual.lookup key) (reportOf node key) :=
  lookup_foldl_addReport node.nodupKeys key

theorem lookup_aggregate (actualByServer : GoMap NodeState) (key : String) :
    (aggregateActualStateByServer actualByServer).lookup key =
      (sortStrings actualByServer.keys).foldl
        (fun existing server => combine existing
          (reportOf ((actualByServer.lookup server).getD ∅) key)) none := by
  have hfold : ∀ (servers : List String) (actual : GoMap ActualService),
      (servers.foldl (fun actual server => addNode actual ((actualByServer.lookup server).getD ∅))
        actual).lookup key =
        servers.foldl (fun existing server =>
          combine existing (reportOf ((actualByServer.lookup server).getD ∅) key))
            (actual.lookup key) := by
    intro servers
    induction servers with
    | nil => intro actual; rfl
    | cons server rest ih =>
      intro actual
      rw [foldl_cons, foldl_cons, ih, lookup_addNode]
  exact hfold _ ∅

inductive ChangeType where
  | add
  | update
  | remove
  | none
  deriving DecidableEq

structure ServiceChange where
  type : ChangeType
  serviceName : String
  (oldConfig newConfig : Option ServiceConfig)
  reasons : List String

structure ReconciliationSummary where
  (total adds updates removes noOps : ℕ)

structure ReconciliationPlan where
  (projectName environment : String)
  changes : List ServiceChange
  summary : ReconciliationSummary

def dynamicDomainsEqual (a b : Option DynamicDomainsConfig) : Bool :=
  match a, b with
  | none, none => true
  | some a, some b => a.enabled.getD true == b.enabled.getD true && a.ask == b.ask
  | _, _ => false

def domainsEqual (a b : Option ProxyConfig) : Bool :=
  match a, b with
  | none, none => true
  | some a, some b =>
    a.domain == b.domain && a.domains == b.domains && a.host == b.host &&
      a.visibility == b.visibility &&
      a.cdn == b.cdn && a.tls.mode == b.tls.mode && a.tls.provider == b.tls.provider &&
      a.tls.staging == b.tls.staging && dynamicDomainsEqual a.dynamicDomains b.dynamicDomains &&
      a.redirectFrom == b.redirectFrom
  | _, _ => false

def envMapsEqual (a b : StringMap) : Bool :=
  a.keys.length == b.keys.length && a.entries.all fun entry => (b.lookup entry.1).getD "" == entry.2

def reasonIf (p : Prop) [Decidable p] (reason : String) : List String := if p then [reason] else []

@[simp] theorem reasonIf_eq_nil {p : Prop} [Decidable p] : reasonIf p reason = [] ↔ ¬p := by
  unfold reasonIf
  split_ifs with h <;> simp [h]

/-- A service without a replica count runs once. -/
def expectedReplicas (desired : ServiceConfig) : ℤ :=
  if desired.replicas = 0 then 1 else desired.replicas

section Detection

variable (F : Fingerprints) (projectName env serviceName : String)

def identityReasons (desired : ServiceConfig) (actual : ActualService) (oldConfig : ServiceConfig) :
    List String :=
  reasonIf (projectName ≠ "" ∧ env ≠ "" ∧ serviceName ≠ "" ∧
      actual.runtimeID ≠ F.serviceIdentity projectName env serviceName)
        "Runtime identity changed" ++
    reasonIf (desired.image ≠ "" ∧ desired.image ≠ actual.image)
      s!"Image changed: {actual.image} → {desired.image}" ++
    reasonIf (expectedReplicas desired ≠ actual.replicas)
      s!"Replicas changed: {actual.replicas} → {expectedReplicas desired}" ++
    reasonIf (desired.persistent ≠ oldConfig.persistent) "Persistence metadata changed"

def fieldReasons (desired oldConfig : ServiceConfig) : List String :=
  reasonIf (0 < desired.port ∧ 0 < oldConfig.port ∧ desired.port ≠ oldConfig.port)
      s!"Port changed: {oldConfig.port} → {desired.port}" ++
    reasonIf (envMapsEqual desired.env oldConfig.env = false) "Environment variables changed" ++
    reasonIf (desired.build ≠ "" ∧ oldConfig.build ≠ "" ∧ desired.build ≠ oldConfig.build)
      "Build context changed - rebuild required" ++
    reasonIf (domainsEqual desired.proxy oldConfig.proxy = false)
      "Domain/proxy configuration changed" ++
    reasonIf (desired.volumes ≠ oldConfig.volumes) "Volume configuration changed"

section

variable (desired : ServiceConfig) (actual : ActualService)

def detectChanges : List String :=
  match actual.configSnapshot with
  | none => ["Service configuration changed (no previous state)"]
  | some oldConfig =>
    let reasons := identityReasons F projectName env serviceName desired actual oldConfig
    if reasons ≠ [] then reasons
    else
      match (if actual.configHash ≠ "" then F.configHash desired else none) with
      | some desiredHash =>
        if actual.configHash = desiredHash then [] else ["Service configuration changed"]
      | none => fieldReasons desired oldConfig

def fingerprintMatches : Bool := F.configHash desired == some actual.configHash

def unchanged (reason : String) : ServiceChange :=
  { type := .none, serviceName := serviceName, oldConfig := actual.configSnapshot,
    newConfig := some desired,
    reasons := [reason] }

def changed (reasons : List String) : ServiceChange :=
  { type := .update, serviceName := serviceName, oldConfig := actual.configSnapshot,
    newConfig := some desired, reasons := reasons }

end

def added (desired : ServiceConfig) (reason : String) : ServiceChange :=
  { type := .add, serviceName := serviceName, oldConfig := none, newConfig := some desired,
    reasons := [reason] }

def recorded (isKind : ServiceConfig → Bool) (actual : Option ActualService) :
    Option ActualService :=
  actual.filter fun actual => (actual.configSnapshot.map isKind).getD false

section

variable (desired : ServiceConfig)

section

variable (actual : Option ActualService)

def runChange : ServiceChange :=
  match recorded isRun actual with
  | none => added serviceName desired "Deploy-time run has not completed"
  | some actual =>
    if fingerprintMatches F desired actual then
      unchanged serviceName desired actual "Deploy-time run fingerprint already completed"
    else changed serviceName desired actual ["Deploy-time run fingerprint changed"]

def jobChange : ServiceChange :=
  match recorded isJob actual with
  | none => added serviceName desired "Job defined in config but not scheduled"
  | some actual =>
    if fingerprintMatches F desired actual then
      unchanged serviceName desired actual "Job schedule is up-to-date"
    else changed serviceName desired actual ["Job configuration changed"]

def ordinaryChange : Option ActualService → ServiceChange
  | none => added serviceName desired "Service defined in config but not deployed"
  | some actual =>
    match detectChanges F projectName env serviceName desired actual with
    | [] => unchanged serviceName desired actual "Service is up-to-date"
    | reasons => changed serviceName desired actual reasons

def desiredChange : ServiceChange :=
  if desired.isRun then runChange F serviceName desired actual
  else if desired.isJob then jobChange F serviceName desired actual
  else ordinaryChange F projectName env serviceName desired actual

end

end

def removalChange (actual : ActualService) : ServiceChange :=
  let keep : ServiceChange :=
    { type := .none, serviceName := serviceName, oldConfig := actual.configSnapshot,
      newConfig := none,
      reasons := ["Service removed from config but marked as PERSISTENT",
        "Keeping service running (databases, stateful services)",
        "To remove, use: tako stop " ++ serviceName] }
  let remove (reasons : List String) : ServiceChange :=
    { type := .remove, serviceName := serviceName, oldConfig := actual.configSnapshot,
      newConfig := none,
      reasons := reasons }
  match actual.configSnapshot with
  | some snapshot =>
    if snapshot.isJob then
      remove ["Job is scheduled but no longer defined in tako.yaml",
        "Will unschedule the job and remove its run history"]
    else if snapshot.persistent then keep
    else remove ["Service is running but no longer defined in tako.yaml",
      "Will stop and remove containers/services"]
  | none =>
    remove ["Service is running but no longer defined in tako.yaml",
      "Will stop and remove containers/services"]

end Detection

def countType (type : ChangeType) (changes : List ServiceChange) : ℕ :=
  changes.countP fun change => change.type == type

/-- An actual service is matched by the configured service of its name. -/
def computePlan (F : Fingerprints) (projectName env : String)
    (desiredServices : GoMap ServiceConfig) (actualServices : GoMap ActualService) :
    ReconciliationPlan :=
  let configured := desiredServices.entries.map fun entry =>
    desiredChange F projectName env entry.1 entry.2 (actualServices.lookup entry.1)
  let unconfigured := (actualServices.entries.filter fun entry => entry.1 ∉ desiredServices).map
    fun entry =>
    removalChange entry.1 entry.2
  let changes := configured ++ unconfigured
  { projectName := projectName
    environment := env
    changes := changes
    summary :=
      { total := changes.length
        adds := countType .add changes
        updates := countType .update changes
        removes := countType .remove changes
        noOps := countType .none changes } }

def ReconciliationPlan.isEmpty (plan : ReconciliationPlan) : Bool :=
  plan.summary.total == plan.summary.noOps

def ReconciliationPlan.Unchanged (plan : ReconciliationPlan) (serviceName : String) : Prop :=
  (∃ change ∈ plan.changes, change.serviceName = serviceName) ∧
    ∀ change ∈ plan.changes, change.serviceName = serviceName → change.type = .none
  deriving Decidable

section DesiredChange

variable (F : Fingerprints) (projectName env serviceName : String) (desired : ServiceConfig)

/-- The report that counts as the service: a run or a job is looked for among those of its kind. -/
def deployed (actual : Option ActualService) : Option ActualService :=
  if desired.isRun then recorded isRun actual
  else if desired.isJob then recorded isJob actual
  else actual

def UpToDate (actual : ActualService) : Prop :=
  if desired.isRun ∨ desired.isJob then fingerprintMatches F desired actual = true
  else detectChanges F projectName env serviceName desired actual = []

/-- All that can be planned for a configured service. -/
theorem desiredChange_cases (actual : Option ActualService) :
    let change := desiredChange F projectName env serviceName desired actual
    (deployed desired actual = none ∧ ∃ reason, change = added serviceName desired reason) ∨
      ∃ found, deployed desired actual = some found ∧
        ((UpToDate F projectName env serviceName desired found ∧
            ∃ reason, change = unchanged serviceName desired found reason) ∨
          (¬ UpToDate F projectName env serviceName desired found ∧
            ∃ reasons, change = changed serviceName desired found reasons)) := by
  unfold desiredChange deployed UpToDate
  by_cases hrun : desired.isRun = true
  · simp only [hrun, true_or, if_true, runChange]
    cases recorded isRun actual with
    | none => exact .inl ⟨rfl, _, rfl⟩
    | some found =>
      by_cases hmatches : fingerprintMatches F desired found = true <;> simp [hmatches]
  by_cases hjob : desired.isJob = true
  · simp only [hrun, hjob, or_true, if_true, jobChange]
    cases recorded isJob actual with
    | none => exact .inl ⟨rfl, _, rfl⟩
    | some found =>
      by_cases hmatches : fingerprintMatches F desired found = true <;> simp [hmatches]
  · simp only [hrun, hjob, or_self]
    cases actual with
    | none => exact .inl ⟨rfl, _, rfl⟩
    | some found =>
      unfold ordinaryChange
      cases hreasons : detectChanges F projectName env serviceName desired found <;> simp [hreasons]

@[simp] theorem desiredChange_serviceName (actual : Option ActualService) :
    (desiredChange F projectName env serviceName desired actual).serviceName = serviceName := by
  obtain ⟨-, _, h⟩ | ⟨_, -, ⟨-, _, h⟩ | ⟨-, _, h⟩⟩ :=
    desiredChange_cases F projectName env serviceName desired actual <;> rw [h] <;> rfl

end DesiredChange

@[simp] theorem removalChange_serviceName (serviceName : String) (actual : ActualService) :
    (removalChange serviceName actual).serviceName = serviceName := by
  unfold removalChange
  split
  · split_ifs <;> rfl
  · rfl

variable {F : Fingerprints} {projectName env serviceName : String}
  {desiredServices : GoMap ServiceConfig} {actualServices : GoMap ActualService}

theorem mem_computePlan_changes (hdesired : desiredServices.lookup serviceName = some desired)
    (change : ServiceChange) :
    (change ∈ (computePlan F projectName env desiredServices actualServices).changes ∧
        change.serviceName = serviceName) ↔
      change = desiredChange F projectName env serviceName desired
        (actualServices.lookup serviceName) := by
  have hentry : ∀ {s : ServiceConfig}, ⟨serviceName, s⟩ ∈ desiredServices.entries ↔
      s = desired := by
    intro s
    rw [← mem_lookup_iff, hdesired]
    simp [eq_comm]
  simp only [computePlan, mem_append, mem_map, mem_filter]
  constructor
  · rintro ⟨⟨⟨name, s⟩, hmem, rfl⟩ | ⟨⟨name, s⟩, ⟨-, hout⟩, rfl⟩, hname⟩
    · rw [desiredChange_serviceName] at hname
      subst hname
      rw [hentry.mp hmem]
    · rw [removalChange_serviceName] at hname
      subst hname
      have hin := lookup_isSome.mp (by rw [hdesired]; rfl)
      simp [hin] at hout
  · rintro rfl
    exact ⟨.inl ⟨⟨serviceName, desired⟩, hentry.mpr rfl, rfl⟩,
      desiredChange_serviceName _ _ _ _ _ _⟩

theorem computePlan_unchanged_iff (hdesired : desiredServices.lookup serviceName = some desired) :
    (computePlan F projectName env desiredServices actualServices).Unchanged serviceName ↔
      (desiredChange F projectName env serviceName desired
        (actualServices.lookup serviceName)).type =
        .none := by
  have hmem := @mem_computePlan_changes F projectName env serviceName _ actualServices _ hdesired
  constructor
  · rintro ⟨⟨change, hchange, hname⟩, hall⟩
    rw [← (hmem change).mp ⟨hchange, hname⟩]
    exact hall change hchange hname
  · intro hnone
    obtain ⟨hin, hname⟩ := (hmem _).mpr rfl
    refine ⟨⟨_, hin, hname⟩, ?_⟩
    intro change hchange hnamed
    rw [(hmem change).mp ⟨hchange, hnamed⟩]
    exact hnone

/-- An ordinary service that runs is unchanged if nothing about it is found changed. -/
theorem ordinary_unchanged_iff (hrun : desired.isRun = false) (hjob : desired.isJob = false) :
    (desiredChange F projectName env serviceName desired (some actual)).type = .none ↔
      detectChanges F projectName env serviceName desired actual = [] := by
  obtain ⟨hnone, -⟩ | ⟨found, hfound, h⟩ :=
    desiredChange_cases F projectName env serviceName desired (some actual)
  · simp [deployed, hrun, hjob] at hnone
  simp only [deployed, hrun, hjob, Bool.false_eq_true, if_false, Option.some.injEq] at hfound
  subst hfound
  simp only [UpToDate, hrun, hjob, Bool.false_eq_true, or_self, if_false] at h
  obtain ⟨hempty, _, h⟩ | ⟨hreasons, _, h⟩ := h
  · simp [h, hempty, unchanged]
  · simp [h, hreasons, changed]

/-- As many keys, and each value is the recorded one, or empty and not recorded at all. -/
def HidesChange (env recordedEnv : StringMap) : Prop :=
  env.keys.length = recordedEnv.keys.length ∧ ∀ key value, env.lookup key = some value →
    recordedEnv.lookup key = some value ∨ value = "" ∧ recordedEnv.lookup key = none

theorem envMapsEqual_iff : envMapsEqual a b = true ↔ HidesChange a b := by
  have hvalue : ∀ key value, (b.lookup key).getD "" = value ↔
      b.lookup key = some value ∨ value = "" ∧ b.lookup key = none := by
    intro key value
    cases b.lookup key <;> simp [eq_comm]
  simp only [envMapsEqual, HidesChange, Bool.and_eq_true, beq_iff_eq, all_eq_true, hvalue]
  refine and_congr_right fun _ => ⟨?_, ?_⟩
  · intro h key value hlookup
    exact h ⟨key, value⟩ (mem_lookup_iff.mp hlookup)
  · intro h entry hentry
    exact h entry.1 entry.2 (mem_lookup_iff.mpr hentry)

/-- Without a fingerprint a changed environment is always noticed exactly if it hides no change. -/
theorem env_change_noticed_iff (F : Fingerprints) (projectName environment serviceName : String)
    (env recordedEnv : StringMap) :
    (∀ (desired : ServiceConfig) (actual : ActualService) (recorded : ServiceConfig),
      desired.env = env →
        actual.configHash = "" → actual.configSnapshot = some recorded →
          recorded.env = recordedEnv →
        detectChanges F projectName environment serviceName desired actual ≠ [] ∧
          (desired.isRun = false → desired.isJob = false →
            (desiredChange F projectName environment serviceName desired (some actual)).type ≠
              .none)) ↔
      ¬ HidesChange env recordedEnv := by
  rw [← envMapsEqual_iff]
  constructor
  · intro h hequal
    -- A service of which nothing else is configured.
    have hnoticed := h { env := env }
      { runtimeID := F.serviceIdentity projectName environment serviceName, replicas := 1,
        configSnapshot := some { env := recordedEnv } } { env := recordedEnv } rfl rfl rfl rfl
    apply hnoticed.1
    simp [detectChanges, identityReasons, fieldReasons, expectedReplicas, domainsEqual, hequal]
  · rintro hequal desired actual recorded rfl hhash hsnapshot rfl
    have hreasons : detectChanges F projectName environment serviceName desired actual ≠ [] := by
      simp only [detectChanges, hsnapshot, hhash, ne_eq, not_true_eq_false, if_false]
      split_ifs with hidentity
      · simp [fieldReasons, hequal]
      · exact hidentity
    exact ⟨hreasons, fun hrun hjob hnone => hreasons ((ordinary_unchanged_iff hrun hjob).mp hnone)⟩

/-- The variable `B` is replaced by an empty `A`. -/
theorem empty_variable_hides_change : let env : StringMap := singleton "A" ""
    let recordedEnv : StringMap := singleton "B" "x"
    let desired : ServiceConfig := { image := "web:1", env := env }
    let actual : ActualService :=
      { image := "web:1", replicas := 1, runtimeID := "id",
        configSnapshot := some { image := "web:1", env := recordedEnv } }
    let F : Fingerprints := ⟨fun _ => none, fun _ _ _ => "id"⟩
    env.lookup "A" ≠ recordedEnv.lookup "A" ∧
      detectChanges F "shop" "production" "web" desired actual = [] ∧
      (desiredChange F "shop" "production" "web" desired (some actual)).type = .none := by
  decide +kernel

end Reconciliation
