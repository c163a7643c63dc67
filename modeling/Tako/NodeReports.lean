import Tako.Reconciliation

/-! # One service on several nodes

The reports are merged in the order of the node names. A label that two nodes disagree on becomes
empty, which is also how a label looks that nobody has reported yet, so a later node sets it again.
-/
namespace Reconciliation

open List GoPrelude GoMaps DeployConfig ActualService AList

structure AgentService where
  (name image : String := "")
  revisionImages : StringMap := ∅
  replicas : ℤ := 0
  containers : List String := []
  (configHash runtimeID : String := "")
  persistent : Bool := false
  (currentRevision previousRevision : String := "")
  warmingRevisions : List String := []
  deployStrategy : String := ""
  (activeContainers warmingContainers : List String := [])

structure JobStatus where
  (image configHash schedule timezone : String := "")

structure ActualStateResponse where
  services : GoMap (Option AgentService) := ∅
  jobs : GoMap (Option JobStatus) := ∅

def AgentService.actual (service : AgentService) : ActualService :=
  { name := service.name
    image := service.image
    revisionImages := service.revisionImages
    replicas := service.replicas
    containers := service.containers
    configHash := service.configHash
    runtimeID := service.runtimeID
    persistent := service.persistent
    currentRevision := service.currentRevision
    previousRevision := service.previousRevision
    warmingRevisions := service.warmingRevisions
    deployStrategy := service.deployStrategy
    activeContainers := service.activeContainers
    warmingContainers := service.warmingContainers
    configSnapshot := some { image := service.image, persistent := service.persistent } }

def JobStatus.actual (jobName : String) (job : JobStatus) : ActualService :=
  { name := jobName
    image := job.image
    configHash := job.configHash
    configSnapshot := some
      { kind := .job, schedule := job.schedule, timezone := job.timezone, image := job.image } }

/-- The answer of one node; a job supersedes the service of its name. -/
def gatherActualStateFromTakodWith (response : ActualStateResponse) : NodeState :=
  let services := fillFrom (fun _ service => service.map fun service => some service.actual)
    response.services.entries ∅
  fillFrom (fun jobName job => job.map fun job => some (job.actual jobName)) response.jobs.entries
    services

def reports (actualByServer : GoMap NodeState) (serviceName : String) : List ActualService :=
  (sortStrings actualByServer.keys).filterMap fun server =>
    reportOf ((actualByServer.lookup server).getD ∅) serviceName

theorem foldl_combine_some (rest : List ActualService) (first : ActualService) :
    rest.foldl (fun existing report => combine existing (some report)) (some first) =
      some (rest.foldl merge first) := by
  induction rest generalizing first with
  | nil => rfl
  | cons report rest ih => exact ih (first.merge report)

theorem foldl_combine_filterMap (servers : List String) :
    servers.foldl (fun existing server => combine existing (f server)) existing =
      (servers.filterMap f).foldl (fun existing report => combine existing (some report))
        existing := by
  induction servers generalizing existing with
  | nil => rfl
  | cons server rest ih =>
    rw [foldl_cons, ih]
    cases hreport : f server with
    | none => rw [filterMap_cons_none hreport, combine]
    | some => rw [filterMap_cons_some hreport, foldl_cons]

theorem lookup_aggregate_reports (actualByServer : GoMap NodeState) (serviceName : String) :
    (aggregateActualStateByServer actualByServer).lookup serviceName =
      match reports actualByServer serviceName with
      | [] => none
      | first :: rest => some (rest.foldl merge first) := by
  rw [lookup_aggregate, foldl_combine_filterMap, ← reports]
  cases reports actualByServer serviceName with
  | nil => rfl
  | cons first rest => exact foldl_combine_some rest first

theorem foldl_merge_configSnapshot (rest : List ActualService) (first : ActualService) :
    (rest.foldl merge first).configSnapshot = first.configSnapshot := by
  induction rest generalizing first with
  | nil => rfl
  | cons report rest ih => exact ih (first.merge report)

theorem mergeConfigHash_eq :
    mergeConfigHash existing incoming = mergeOptionalLabel existing incoming := by
  unfold mergeConfigHash mergeOptionalLabel
  by_cases hold : existing = ""
  · by_cases hincoming : incoming = ""
    · simp [hincoming]
    · simp [hincoming]
  · by_cases hincoming : incoming = ""
    · simp [hold, hincoming]
    · by_cases hsame : existing = incoming
      · simp [hsame]
      · simp [hold, hincoming, hsame]

def mergeLabels (labels : List String) : String := labels.foldl mergeOptionalLabel ""

@[simp] theorem mergeOptionalLabel_empty_left : mergeOptionalLabel "" incoming = incoming := by
  unfold mergeOptionalLabel
  by_cases h : incoming = ""
  · rw [if_pos h, h]
  · rw [if_neg h, if_pos rfl]

@[simp] theorem mergeOptionalLabel_empty_right : mergeOptionalLabel existing "" = existing := by
  simp [mergeOptionalLabel]

@[simp] theorem mergeOptionalLabel_self : mergeOptionalLabel label label = label := by
  simp [mergeOptionalLabel]

theorem mergeOptionalLabel_of_ne (hold : existing ≠ "") (hincoming : incoming ≠ "")
    (h : existing ≠ incoming) : mergeOptionalLabel existing incoming = "" := by
  simp [mergeOptionalLabel, hold, hincoming, h]

def MergesAs (label : ActualService → String) : Prop :=
  ∀ existing incoming, label (existing.merge incoming) =
    mergeOptionalLabel (label existing) (label incoming)

theorem foldl_merge_label (hlabel : MergesAs label) (first : ActualService) :
    label (rest.foldl merge first) = mergeLabels ((first :: rest).map label) := by
  rw [mergeLabels, map_cons, foldl_cons, mergeOptionalLabel_empty_left]
  induction rest generalizing first with
  | nil => rfl
  | cons report rest ih =>
    rw [foldl_cons, ih, map_cons, foldl_cons, hlabel]

def reported (label : ActualService → String) (actualByServer : GoMap NodeState)
    (serviceName : String) : List String :=
  ((reports actualByServer serviceName).map label).filter fun value => value ≠ ""

theorem foldl_mergeOptionalLabel_filter (labels : List String) (held : String) :
    (labels.filter fun value => value ≠ "").foldl mergeOptionalLabel held =
      labels.foldl mergeOptionalLabel held := by
  induction labels generalizing held with
  | nil => rfl
  | cons value rest ih =>
    by_cases hempty : value = ""
    · subst hempty
      rw [foldl_cons, ← ih]
      simp
    · rw [foldl_cons, ← ih]
      simp [hempty]

theorem aggregate_label (hlabel : MergesAs label)
    (h : (aggregateActualStateByServer actualByServer).lookup serviceName = some actual) :
    label actual = mergeLabels (reported label actualByServer serviceName) := by
  rw [lookup_aggregate_reports] at h
  rw [reported]
  cases hreports : reports actualByServer serviceName with
  | nil =>
    rw [hreports] at h
    cases h
  | cons =>
    rw [hreports] at h
    cases h
    rw [foldl_merge_label hlabel, mergeLabels, mergeLabels, foldl_mergeOptionalLabel_filter]

/-- Blocks of reports, each of which ends with a report that contradicts the others of its block. -/
inductive Cancels : List String → Prop
  | nil : Cancels []
  | block (count : ℕ) {rest : List String} (conflict : other ≠ value)
      (later : Cancels rest) : Cancels (replicate (count + 1) value ++ other :: rest)

/-- Either all values are one, or every value met a contradiction. -/
def Settles (labels : List String) : Prop := (∀ a ∈ labels, ∀ b ∈ labels, a = b) ∨ Cancels labels

/-- The merge ends empty after blocks that cancel, and otherwise it holds a value. While it holds
`value`, further reports of it change nothing until another one cancels it. -/
theorem foldl_mergeOptionalLabel_eq_empty (hlabels : ∀ a ∈ labels, a ≠ "") :
    (labels.foldl mergeOptionalLabel "" = "" ↔ Cancels labels) ∧
      ∀ value, value ≠ "" → (labels.foldl mergeOptionalLabel value = "" ↔
        ∃ count other rest, other ≠ value ∧ Cancels rest ∧
          labels = replicate count value ++ other :: rest) := by
  induction labels with
  | nil => exact ⟨iff_of_true rfl Cancels.nil, fun value hvalue => by simp [hvalue]⟩
  | cons first rest ih =>
    obtain ⟨hfirst, hrest⟩ := forall_mem_cons.mp hlabels
    obtain ⟨hempty, hheld⟩ := ih hrest
    constructor
    · rw [foldl_cons, mergeOptionalLabel_empty_left, hheld first hfirst]
      constructor
      · rintro ⟨count, other, later, hconflict, hcancels, rfl⟩
        exact Cancels.block count hconflict hcancels
      · generalize hall : first :: rest = all
        rintro (_ | ⟨count, hconflict, hcancels⟩)
        · cases hall
        · cases hall
          exact ⟨count, _, _, hconflict, hcancels, rfl⟩
    · intro value hvalue
      rw [foldl_cons]
      by_cases hsame : first = value
      · subst hsame
        rw [mergeOptionalLabel_self, hheld first hfirst]
        constructor
        · rintro ⟨count, other, later, hconflict, hcancels, rfl⟩
          exact ⟨count + 1, other, later, hconflict, hcancels, rfl⟩
        · rintro ⟨count, other, later, hconflict, hcancels, hall⟩
          cases count with
          | zero =>
            cases hall
            exact absurd rfl hconflict
          | succ count =>
            cases hall
            exact ⟨count, other, later, hconflict, hcancels, rfl⟩
      · rw [mergeOptionalLabel_of_ne hvalue hfirst (Ne.symm hsame), hempty]
        constructor
        · intro hcancels
          exact ⟨0, first, rest, hsame, hcancels, rfl⟩
        · rintro ⟨count, other, later, -, hcancels, hall⟩
          cases count with
          | zero =>
            cases hall
            exact hcancels
          | succ =>
            cases hall
            exact absurd rfl hsame

theorem foldl_mergeOptionalLabel_mem (labels : List String) (held : String) :
    labels.foldl mergeOptionalLabel held = "" ∨ labels.foldl mergeOptionalLabel held = held ∨
      labels.foldl mergeOptionalLabel held ∈ labels := by
  induction labels generalizing held with
  | nil => exact .inr (.inl rfl)
  | cons first rest ih =>
    rw [foldl_cons]
    rcases ih (mergeOptionalLabel held first) with hempty | hheld | hmem
    · exact .inl hempty
    · rw [hheld]
      unfold mergeOptionalLabel
      split_ifs
      · exact .inr (.inl rfl)
      · exact .inr (.inr mem_cons_self)
      · exact .inr (.inl rfl)
      · exact .inl rfl
    · exact .inr (.inr (mem_cons_of_mem _ hmem))

/-- A value that is left after the merge is everybody's, exactly if the reports settle. -/
theorem mergeLabels_agrees_iff (hlabels : ∀ a ∈ labels, a ≠ "") :
    (mergeLabels labels ≠ "" → ∀ a ∈ labels, a = mergeLabels labels) ↔ Settles labels := by
  have hempty := (foldl_mergeOptionalLabel_eq_empty hlabels).1
  constructor
  · intro h
    by_cases hmerged : mergeLabels labels = ""
    · exact .inr (hempty.mp hmerged)
    · exact .inl fun a ha b hb => (h hmerged a ha).trans (h hmerged b hb).symm
  · rintro (hsame | hcancels) hmerged a ha
    · rcases foldl_mergeOptionalLabel_mem labels "" with hnone | hnone | hmem
      · exact absurd hnone hmerged
      · exact absurd hnone hmerged
      · exact hsame a ha _ hmem
    · exact absurd (hempty.mpr hcancels) hmerged

theorem reported_ne_empty : ∀ a ∈ reported label actualByServer serviceName, a ≠ "" := by
  intro a ha
  exact of_decide_eq_true (mem_filter.mp ha).2

theorem aggregate_label_agrees_iff (hlabel : MergesAs label) (actualByServer : GoMap NodeState)
    (serviceName : String) :
    (∀ actual, (aggregateActualStateByServer actualByServer).lookup serviceName = some actual →
      label actual ≠ "" →
        ∀ a ∈ reported label actualByServer serviceName, a = label actual) ↔
      Settles (reported label actualByServer serviceName) := by
  rw [← mergeLabels_agrees_iff reported_ne_empty]
  cases haggregate : (aggregateActualStateByServer actualByServer).lookup serviceName with
  | some actual =>
    rw [← aggregate_label hlabel haggregate]
    constructor
    · intro h
      exact h actual rfl
    · rintro h _ ⟨rfl⟩
      exact h
  | none =>
    have hnone : reports actualByServer serviceName = [] := by
      rw [lookup_aggregate_reports] at haggregate
      cases hreports : reports actualByServer serviceName with
      | nil => rfl
      | cons =>
        rw [hreports] at haggregate
        cases haggregate
    simp [reported, hnone]

theorem deployed_eq (h : deployed desired (some actual) = some found) : found = actual := by
  unfold deployed recorded at h
  split_ifs at h
  · exact (Option.some.inj (Option.eq_some_of_filter_eq_some h)).symm
  · exact (Option.some.inj (Option.eq_some_of_filter_eq_some h)).symm
  · exact (Option.some.inj h).symm

/-- A service is planned as unchanged only if a fingerprint that was recorded is the desired one. -/
theorem desiredChange_hash {env hash : String} (hdesired : F.configHash desired = some hash)
    (hrec : actual.configHash ≠ "")
    (h : (desiredChange F projectName env serviceName desired (some actual)).type = .none) :
    actual.configHash = hash := by
  obtain ⟨-, _, hadded⟩ | ⟨found, hfound, ⟨hcur, -⟩ | ⟨-, _, hchanged⟩⟩ :=
    desiredChange_cases F projectName env serviceName desired (some actual)
  · rw [hadded] at h
    cases h
  · rw [deployed_eq hfound] at hcur
    unfold UpToDate at hcur
    split_ifs at hcur
    · rw [fingerprintMatches, hdesired, beq_iff_eq, Option.some.injEq] at hcur
      exact hcur.symm
    unfold detectChanges at hcur
    split at hcur
    case h_1 => cases hcur
    case h_2 oldConfig _ =>
      by_cases hreasons : identityReasons F projectName env serviceName desired actual oldConfig =
        []
      · simp only [hreasons, ne_eq, not_true_eq_false, if_false, hrec, not_false_eq_true, if_true,
          hdesired] at hcur
        by_contra hne
        rw [if_neg hne] at hcur
        cases hcur
      · simp only [ne_eq, hreasons, not_false_eq_true, if_true] at hcur
  · rw [hchanged] at h
    cases h

/-- The aggregated fingerprint and revision are those of every node that reports one, exactly if
the reports settle; a plan without change then means that every recorded fingerprint is the
desired one. -/
theorem no_op_agrees_iff (actualByServer : GoMap NodeState) (serviceName : String) :
    ((∀ actual, (aggregateActualStateByServer actualByServer).lookup serviceName = some actual →
          actual.configHash ≠ "" →
            ∀ hash ∈ reported configHash actualByServer serviceName, hash = actual.configHash) ↔
        Settles (reported configHash actualByServer serviceName)) ∧
      ((∀ actual, (aggregateActualStateByServer actualByServer).lookup serviceName = some actual →
          actual.currentRevision ≠ "" →
            ∀ revision ∈ reported currentRevision actualByServer serviceName,
              revision = actual.currentRevision) ↔
        Settles (reported currentRevision actualByServer serviceName)) ∧
      (Settles (reported configHash actualByServer serviceName) →
        ∀ (F : Fingerprints) (projectName env : String) (desiredServices : GoMap ServiceConfig)
          (desired : ServiceConfig) (desiredHash : String) (actual : ActualService),
          desiredServices.lookup serviceName = some desired →
            F.configHash desired = some desiredHash →
          (aggregateActualStateByServer actualByServer).lookup serviceName = some actual →
            actual.configHash ≠ "" →
          (computePlan F projectName env desiredServices
            (aggregateActualStateByServer actualByServer)).Unchanged serviceName →
          ∀ hash ∈ reported configHash actualByServer serviceName, hash = desiredHash) := by
  have hhash := @aggregate_label_agrees_iff configHash
    (fun _ _ => mergeConfigHash_eq) actualByServer serviceName
  have hrevision := @aggregate_label_agrees_iff currentRevision
    (fun _ _ => rfl) actualByServer serviceName
  refine ⟨hhash, hrevision, ?_⟩
  intro hsettles F projectName env desiredServices desired desiredHash actual hdesired hdesiredHash
    hactual hrecorded hunchanged hash hmem
  rw [computePlan_unchanged_iff hdesired, hactual] at hunchanged
  rw [hhash.mpr hsettles actual hactual hrecorded hash hmem]
  exact desiredChange_hash hdesiredHash hrecorded hunchanged

def buildHash : Fingerprints where
  configHash service := some service.build
  serviceIdentity _ _ _ := "id"

def shopDesired : GoMap ServiceConfig :=
  mapOf [("web", { image := "web:1", build := "v3", replicas := 3 })]

def webAt (hash : String) : NodeState :=
  gatherActualStateFromTakodWith
    { services := mapOf [("web", some
        { name := "web", image := "web:1", replicas := 1, configHash := hash, runtimeID := "id",
          currentRevision := hash })] }

def webOn (a b c : String) : GoMap NodeState :=
  mapOf [("a", webAt a), ("b", webAt b), ("c", webAt c)]

/-- Two nodes disagree, and the third one has the desired fingerprint: nothing is planned. -/
theorem third_node_hides_conflict :
    (computePlan buildHash "shop" "production" shopDesired
        (aggregateActualStateByServer (webOn "v1" "v2" "v3"))).Unchanged "web" ∧
      ((aggregateActualStateByServer (webOn "v1" "v2" "v3")).lookup "web").map
        (fun actual => (actual.configHash, actual.currentRevision)) = some ("v3", "v3") ∧
      reported configHash (webOn "v1" "v2" "v3") "web" = ["v1", "v2", "v3"] := by
  decide +kernel

/-- Three nodes that agree are settled, and so is their plan. -/
theorem agreeing_nodes_settle : Settles (reported configHash (webOn "v3" "v3" "v3") "web") ∧
      (computePlan buildHash "shop" "production" shopDesired
        (aggregateActualStateByServer (webOn "v3" "v3" "v3"))).Unchanged "web" ∧
      ∀ hash ∈ reported configHash (webOn "v3" "v3" "v3") "web", hash = "v3" := by
  have hsettles : Settles (reported configHash (webOn "v3" "v3" "v3") "web") :=
    .inl (by decide +kernel)
  have hunchanged : (computePlan buildHash "shop" "production" shopDesired
      (aggregateActualStateByServer (webOn "v3" "v3" "v3"))).Unchanged "web" := by decide +kernel
  obtain ⟨actual, hactual, hrecorded⟩ := exists_of_any
    (o := (aggregateActualStateByServer (webOn "v3" "v3" "v3")).lookup "web")
    (P := (·.configHash = "v3")) (by decide +kernel)
  refine ⟨hsettles, hunchanged, ?_⟩
  exact (no_op_agrees_iff _ _).2.2 hsettles buildHash "shop" "production" shopDesired
    { image := "web:1", build := "v3", replicas := 3 } "v3" actual rfl rfl hactual
    (by rw [hrecorded]; decide) hunchanged

def KeepsRunning (report : ActualService) : Prop :=
  ∃ snapshot, report.configSnapshot = some snapshot ∧ snapshot.isJob = false ∧ snapshot.persistent

theorem removalChange_type (serviceName : String) (actual : ActualService) :
    (KeepsRunning actual ∧ (removalChange serviceName actual).type = .none) ∨
      (¬ KeepsRunning actual ∧ (removalChange serviceName actual).type = .remove) := by
  unfold removalChange KeepsRunning
  cases actual.configSnapshot with
  | none => simp
  | some snapshot => by_cases hjob : snapshot.isJob <;> by_cases hpers : snapshot.persistent <;>
      simp [hjob, hpers]

theorem desiredChange_ne_remove (F : Fingerprints) (projectName env serviceName : String)
    (desired : ServiceConfig) (actual : Option ActualService) :
    (desiredChange F projectName env serviceName desired actual).type ≠ .remove := by
  obtain ⟨-, _, h⟩ | ⟨_, -, ⟨-, _, h⟩ | ⟨-, _, h⟩⟩ :=
    desiredChange_cases F projectName env serviceName desired actual <;> rw [h] <;>
      exact ChangeType.noConfusion

theorem mem_computePlan_unconfigured (hdesired : serviceName ∉ desiredServices)
    (change : ServiceChange) :
    (change ∈ (computePlan F projectName env desiredServices actualServices).changes ∧
        change.serviceName = serviceName) ↔
      ∃ actual, actualServices.lookup serviceName = some actual ∧
        change = removalChange serviceName actual := by
  simp only [computePlan, mem_append, mem_map, mem_filter]
  constructor
  · rintro ⟨⟨⟨name, s⟩, hmem, rfl⟩ | ⟨⟨name, actual⟩, ⟨hmem, -⟩, rfl⟩, hname⟩
    · rw [desiredChange_serviceName] at hname
      subst hname
      exact absurd (lookup_isSome.mp (by rw [mem_lookup_iff.mpr hmem]; rfl)) hdesired
    · rw [removalChange_serviceName] at hname
      subst hname
      exact ⟨actual, mem_lookup_iff.mpr hmem, rfl⟩
  · rintro ⟨actual, hactual, rfl⟩
    exact ⟨.inr ⟨⟨serviceName, actual⟩, ⟨mem_lookup_iff.mp hactual, by simp [hdesired]⟩, rfl⟩,
      removalChange_serviceName _ _⟩

theorem mem_reports : report ∈ reports actualByServer serviceName ↔
      ∃ server node, actualByServer.lookup server = some node ∧
        node.lookup serviceName = some (some report) := by
  have hsorted : ∀ server, server ∈ sortStrings actualByServer.keys ↔
      server ∈ actualByServer.keys :=
    fun server => (perm_insertionSort _ actualByServer.keys).mem_iff
  simp only [reports, mem_filterMap, hsorted, reportOf]
  constructor
  · rintro ⟨server, -, hreport⟩
    cases hnode : actualByServer.lookup server with
    | none =>
      rw [hnode] at hreport
      cases hreport
    | some node =>
      rw [hnode, Option.getD_some] at hreport
      cases hsvc : node.lookup serviceName with
      | none =>
        rw [hsvc] at hreport
        cases hreport
      | some =>
        rw [hsvc, Option.getD_some] at hreport
        exact ⟨server, node, hnode, by rw [hsvc, hreport]⟩
  · rintro ⟨server, node, hnode, hreport⟩
    refine ⟨server, mem_keys.mpr (lookup_isSome.mp (by rw [hnode]; rfl)), ?_⟩
    rw [hnode, Option.getD_some, hreport, Option.getD_some]

/-- A service that some node reports as persistent is not removed, exactly if it is configured or
the first report about it has a snapshot that keeps it. -/
theorem persistent_not_removed_iff (F : Fingerprints) (projectName env : String)
    (desiredServices : GoMap ServiceConfig) (actualByServer : GoMap NodeState)
      {serviceName : String}
    (hpersistent : ∃ server node report, actualByServer.lookup server = some node ∧
      node.lookup serviceName = some (some report) ∧ report.persistent) :
    (∀ change ∈ (computePlan F projectName env desiredServices
        (aggregateActualStateByServer actualByServer)).changes, change.serviceName = serviceName →
          change.type ≠ .remove) ↔
      serviceName ∈ desiredServices ∨ ∃ first ∈ (reports actualByServer serviceName).head?,
        KeepsRunning first := by
  obtain ⟨server, node, report, hnode, hreport, -⟩ := hpersistent
  have hmem := mem_reports.mpr ⟨server, node, hnode, hreport⟩
  obtain ⟨first, rest, hreports⟩ := exists_cons_of_ne_nil (ne_nil_of_mem hmem)
  have haggregate := lookup_aggregate_reports actualByServer serviceName
  rw [hreports] at haggregate ⊢
  have hkeeps : KeepsRunning (rest.foldl merge first) ↔ KeepsRunning first := by
    unfold KeepsRunning
    rw [foldl_merge_configSnapshot]
  have hhead : (∃ r ∈ (first :: rest).head?, KeepsRunning r) ↔ KeepsRunning first := by simp
  rw [hhead]
  by_cases hconfigured : serviceName ∈ desiredServices
  · refine iff_of_true ?_ (.inl hconfigured)
    intro change hchange hname
    obtain ⟨desired, hdesired⟩ := exists_lookup hconfigured
    rw [(mem_computePlan_changes hdesired change).mp ⟨hchange, hname⟩]
    exact desiredChange_ne_remove _ _ _ _ _ _
  · rw [or_iff_right hconfigured, ← hkeeps]
    obtain ⟨hkeep, htype⟩ | ⟨hkeep, htype⟩ :=
      removalChange_type serviceName (rest.foldl merge first)
    · refine iff_of_true ?_ hkeep
      intro change hchange hname
      obtain ⟨actual, hactual, rfl⟩ :=
        (mem_computePlan_unconfigured hconfigured change).mp ⟨hchange, hname⟩
      rw [haggregate] at hactual
      cases hactual
      rw [htype]
      exact ChangeType.noConfusion
    · refine iff_of_false ?_ hkeep
      intro h
      obtain ⟨hin, hname⟩ := (mem_computePlan_unconfigured hconfigured _).mpr ⟨_, haggregate, rfl⟩
      exact h _ hin hname htype

def dbAt (persistent : Bool) : NodeState :=
  gatherActualStateFromTakodWith
    { services := mapOf [("db", some
      { name := "db", image := "postgres:16", replicas := 1, persistent := persistent })] }

/-- The first node reports the service as not persistent, and it is planned for removal. -/
theorem first_report_removes_persistent :
    ((dbAt true).lookup "db").map (fun report => report.map persistent) = some (some true) ∧
      (computePlan buildHash "shop" "production" ∅
        (aggregateActualStateByServer (mapOf [("a", dbAt false), ("b", dbAt true)]))).changes.map
          (fun change => (change.serviceName, change.type)) = [("db", .remove)] := by
  decide +kernel

/-- In the other order it stays. -/
theorem first_report_keeps_persistent :
    (mapOf [("a", dbAt true), ("b", dbAt false)]).lookup "a" = some (dbAt true) ∧
    ∀ change ∈ (computePlan buildHash "shop" "production" ∅
        (aggregateActualStateByServer (mapOf [("a", dbAt true), ("b", dbAt false)]))).changes,
      change.serviceName = "db" → change.type ≠ .remove :=
  ⟨rfl, (persistent_not_removed_iff buildHash "shop" "production" ∅
    (mapOf [("a", dbAt true), ("b", dbAt false)])
      ⟨"a", dbAt true, _, rfl, rfl, rfl⟩).mpr
    (.inr ⟨_, rfl, _, rfl, rfl, rfl⟩)⟩

end Reconciliation
